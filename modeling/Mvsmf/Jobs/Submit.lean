import Mvsmf.Jobs.ProcessJobcard
import Mvsmf.Jobs.JobList

/-!
# Submission

`submit_jcl_content` and `submit_file` collect the lines of a job, have its card rewritten and put
what is not empty into the internal reader, card by card. Behind a put that fails both close the
reader, and a close hands to JES2 what the reader has.
-/

namespace Mvsmf

open Jcl CLib

/-! ## Collecting the lines -/

def INITIAL_JCL_CAPACITY : Nat := 256
def INT_MAX : Nat := 0x7FFFFFFF

/-- The delimiter of inline lines, which is the `'\n'` of the C library too. -/
def EBCDIC_NEL : Char := '\x85'
def EBCDIC_LF : Char := '\n'

/-- What a submission meets: the storage of the line arrays, the caller's userid and password, what
the internal reader answers to the puts one by one, and the jobid it returns when it is closed. -/
structure SubmitEnv where
  calloc : Bool
  realloc : Nat → Bool
  credentials : Option (Text × Text)
  jesirput : Nat → Bool
  jesircl2 : Option Text

/-- The doubled capacity that reaches `required`; from one on as many doublings do. -/
def doubledCapacity (required : Nat) : Nat → Nat → Option Nat
  | 0, capacity => some capacity
  | fuel + 1, capacity =>
    if capacity < required then
      if capacity > INT_MAX / 2 then none else doubledCapacity required fuel (capacity * 2)
    else some capacity

def growLinesArrays (env : SubmitEnv) (capacity required : Nat) : Option Nat :=
  if required ≤ capacity then some capacity
  else
    match doubledCapacity required required capacity with
    | none => none
    | some newCap => if env.realloc newCap then some newCap else none

/-- The capacity behind the last line stored, `none` if the arrays could not grow for one. -/
def storeLines (env : SubmitEnv) (capacity numLines : Nat) : List Text → Option Nat
  | [] => some capacity
  | _ :: lines =>
    if numLines ≥ capacity then
      match growLinesArrays env capacity (numLines + 1) with
      | none => none
      | some capacity => storeLines env capacity (numLines + 1) lines
    else storeLines env capacity (numLines + 1) lines

/-- The tokens between delimiters; a run of delimiters is one. -/
def tokenize (content : Text) : List Text :=
  (content.splitOn EBCDIC_NEL).filter (· ≠ [])

/-- A token as a line: one carriage return at its end goes, and what is behind column 80. -/
def contentLine (token : Text) : Text :=
  (if token.getLast? = some '\r' then token.dropLast else token).take 80

def isFileEol (c : Char) : Bool := c == EBCDIC_NEL || c == '\r' || c == EBCDIC_LF

/-- What `fgets` returned as a line. -/
def fileLine (read : Text) : Text := ((cString read).rdropWhile isFileEol).take 80

/-! ## The name of a data set -/

def DSNAME_MAX : Nat := 44
def MEMBER_MAX : Nat := 8
def SUBDSN_SIZE : Nat := DSNAME_MAX + 1 + MEMBER_MAX + 1 + 1

/-- `//'DSN'` or `//''DSN''`, with a member or without. -/
def submitDsname (filename : Text) : Option Text :=
  if filename.length ≤ 4 ∨ ¬ "//'".toList.isPrefixOf filename ∨ filename.getLast? ≠ some '\'' then
    none
  else
    let name := (filename.drop 3).dropLast
    let name :=
      if name.head? = some '\'' then
        if name.length < 2 ∨ name.getLast? ≠ some '\'' then none else some (name.drop 1).dropLast
      else some name
    match name with
    | none => none
    | some name =>
      if name = [] ∨ name.head? = some '\'' ∨ name.getLast? = some '\'' then none
      else
        let dsn := name.takeWhile (· != '(')
        let memLen := name.length - dsn.length - 2
        if dsn.length < name.length ∧
            (name.getLast? ≠ some ')' ∨ memLen = 0 ∨ memLen > MEMBER_MAX) then none
        else if dsn.length = 0 ∨ dsn.length > DSNAME_MAX ∨ name.length ≥ SUBDSN_SIZE then none
        else some name

/-! ## Answers -/

namespace JobsAnswer

def REASON_SUBMIT_FILE_OPEN : Int := 8
def REASON_JOBCARD_TOO_LONG : Int := 12

def ERR_MSG_JOBCARD_TOO_LONG : String :=
  "JOB card cannot be continued: no room for the comma that joins it to the " ++
    "NOTIFY, USER and PASSWORD operands mvsMF adds"

def MAX_ERR_MSG_LENGTH : Nat := 256

def submitRefused (status : Nat) (reason : Int) (message : String) : Answer :=
  ⟨status, Answer.CATEGORY_SERVICE, Answer.RC_ERROR, reason, message, []⟩

def submitFileOpen (status : Nat) (name : Text) : Answer :=
  submitRefused status REASON_SUBMIT_FILE_OPEN
    (String.ofList (("Cannot open dataset: ".toList ++ name).take (MAX_ERR_MSG_LENGTH - 1)))

def noCredentials : Answer :=
  submitRefused Answer.HTTP_STATUS_BAD_REQUEST REASON_INVALID_REQUEST
    "Job submission requires an authenticated session with a password"

/-- The answer to a deck whose card could not be rewritten. -/
def jobcardRefused (noCard : String) : JobcardErr → Answer
  | .tooLong => submitRefused Answer.HTTP_STATUS_BAD_REQUEST REASON_JOBCARD_TOO_LONG
      ERR_MSG_JOBCARD_TOO_LONG
  | .noCard => submitRefused Answer.HTTP_STATUS_BAD_REQUEST REASON_INVALID_REQUEST noCard

end JobsAnswer

open JobsAnswer

/-! ## Up to the first put -/

/-- The lines stored and the card rewritten. -/
def processLines (env : SubmitEnv) (noCard : String) (capacity : Nat) (lines : List Text) :
    Except Answer ProcessedJcl :=
  match growLinesArrays env capacity (lines.length + 2) with
  | none => .error serverError
  | some _ =>
    match env.credentials with
    | none => .error noCredentials
    | some (user, password) =>
      (processJobcard lines user password).mapError (jobcardRefused noCard)

/-- `submit_jcl_content` up to the first put; its storage failures are answered by the handler. -/
def prepareContent (env : SubmitEnv) (content : Text) : Except Answer ProcessedJcl :=
  let lines := (tokenize (cString content)).map contentLine
  if env.calloc then
    match storeLines env INITIAL_JCL_CAPACITY 0 lines with
    | none => .error serverError
    | some capacity =>
      processLines env "No valid JOB card found in submitted JCL" capacity lines
  else .error serverError

/-- A data set as `fgets` reads it, whether there is storage for a record of it, and whether an
error ended the reads. -/
structure JclDataset where
  calloc : Bool
  reads : List Text
  ferror : Bool

/-- `submit_file` up to the first put. -/
def prepareFile (env : SubmitEnv) (catalog : Text → Option JclDataset) (filename : Text) :
    Except Answer ProcessedJcl :=
  match submitDsname filename with
  | none => .error (submitFileOpen Answer.HTTP_STATUS_BAD_REQUEST filename)
  | some dsname =>
    match catalog dsname with
    | none => .error (submitFileOpen Answer.HTTP_STATUS_NOT_FOUND dsname)
    | some fp =>
      let lines := fp.reads.map fileLine
      if fp.calloc && env.calloc then
        match storeLines env INITIAL_JCL_CAPACITY 0 lines with
        | none => .error serverError
        | some capacity =>
          if fp.ferror then .error serverError
          else processLines env "No valid JOB card found in dataset" capacity lines
      else .error serverError

/-! ## The internal reader -/

/-- The cards that are put until a put fails, and whether none does; `k` puts were before. -/
def putCards (jesirput : Nat → Bool) (k : Nat) : List Text → List Text × Bool
  | [] => ([], true)
  | card :: cards =>
    if jesirput k then
      let r := putCards jesirput (k + 1) cards
      (card :: r.1, r.2)
    else ([], false)

/-- A close releases the cards put so far as a job. -/
def closeReader (cards : List Text) : List (List Text) := if cards = [] then [] else [cards]

structure SubmittedJob where
  jobname : Text
  jobid : Text
  jobclass : Char

/-- The answer of a submission and the jobs it has released to JES2. -/
structure Submitted where
  answer : Except Answer SubmittedJob
  released : List (List Text)

/-- The cards of a deck. -/
def ProcessedJcl.cards (p : ProcessedJcl) : List Text := p.lines.filter (· ≠ [])

/-- Behind the rewrite: the puts, and the close at `quit` or with the jobid. -/
def submitLines (env : SubmitEnv) (prepared : Except Answer ProcessedJcl) : Submitted :=
  match prepared with
  | .error a => ⟨.error a, closeReader []⟩
  | .ok p =>
    let r := putCards env.jesirput 0 p.cards
    if r.2 then
      match env.jesircl2 with
      | none => ⟨.error serverError, closeReader r.1⟩
      | some jobid => ⟨.ok ⟨p.jobname, jobid, p.jobclass.getD 'A'⟩, closeReader r.1⟩
    else ⟨.error serverError, closeReader r.1⟩

def submitJclContent (env : SubmitEnv) (content : Text) : Submitted :=
  submitLines env (prepareContent env content)

def submitFile (env : SubmitEnv) (catalog : Text → Option JclDataset) (filename : Text) : Submitted :=
  submitLines env (prepareFile env catalog filename)

/-! ## Failed submissions -/

inductive SubmitRequest
  | content (text : Text)
  | file (filename : Text)

section
variable (env : SubmitEnv) (catalog : Text → Option JclDataset)

def SubmitRequest.prepare : SubmitRequest → Except Answer ProcessedJcl
  | .content text => prepareContent env text
  | .file filename => prepareFile env catalog filename

def SubmitRequest.submit : SubmitRequest → Submitted
  | .content text => submitJclContent env text
  | .file filename => submitFile env catalog filename

/-- Some of the cards of the request's deck, but not all. -/
def SubmitRequest.IsPart (r : SubmitRequest) (job : List Text) : Prop :=
  ∃ p, r.prepare env catalog = .ok p ∧ job <+: p.cards ∧ job ≠ p.cards

/-- An error is not answered to a request of which a part has become a job. -/
def SubmitRequest.NoPartSubmitted (r : SubmitRequest) : Prop :=
  ∀ a, (r.submit env catalog).answer = .error a →
    ∀ job ∈ (r.submit env catalog).released, ¬ r.IsPart env catalog job

/-- No put behind the first one is the first that fails. -/
def PutsAll (jesirput : Nat → Bool) (cards : List Text) : Prop :=
  ∀ k, 0 < k → k < cards.length → (∀ j < k, jesirput j = true) → jesirput k = true

theorem SubmitRequest.submit_eq (r : SubmitRequest) :
    r.submit env catalog = submitLines env (r.prepare env catalog) := by
  cases r with
  | content => rfl
  | file => rfl

end

/-- The puts take cards from the front, up to the first that fails. -/
theorem putCards_eq (jesirput : Nat → Bool) (k : Nat) (cards : List Text) :
    ∃ n ≤ cards.length, (putCards jesirput k cards).1 = cards.take n ∧
      (∀ j < n, jesirput (k + j) = true) ∧
      ((putCards jesirput k cards).2 = true ∧ n = cards.length ∨
        (putCards jesirput k cards).2 = false ∧ n < cards.length ∧ jesirput (k + n) = false) := by
  induction cards generalizing k with
  | nil => exact ⟨0, Nat.le_refl _, rfl, nofun, Or.inl ⟨rfl, rfl⟩⟩
  | cons card cards ih =>
    rw [putCards]
    cases hk : jesirput k with
    | false =>
      refine ⟨0, Nat.zero_le _, rfl, nofun, Or.inr ⟨rfl, ?_, hk⟩⟩
      simp
    | true =>
      obtain ⟨n, hn, hput, hbefore, hend⟩ := ih (k + 1)
      refine ⟨n + 1, ?_, ?_, ?_, ?_⟩
      · simpa using hn
      · simpa using hput
      · intro j hj
        cases j with
        | zero => exact hk
        | succ j =>
          rw [← Nat.add_assoc, Nat.add_right_comm]
          exact hbefore j (by omega)
      · rcases hend with ⟨hall, hlen⟩ | ⟨hfail, hlt, hno⟩
        · exact Or.inl ⟨hall, by simp [hlen]⟩
        · refine Or.inr ⟨hfail, by simpa using hlt, ?_⟩
          rw [← Nat.add_assoc, Nat.add_right_comm]
          exact hno

theorem mem_closeReader {cards job : List Text} :
    job ∈ closeReader cards ↔ job = cards ∧ cards ≠ [] := by
  unfold closeReader
  split
  next h => simp [h]
  next h => simp [h]

/-- A request that comes to the puts is answered an error with its part released exactly if a put
fails behind the first. -/
theorem submitLines_part_iff (env : SubmitEnv) (p : ProcessedJcl) :
    (∀ a, (submitLines env (.ok p)).answer = .error a →
      ∀ job ∈ (submitLines env (.ok p)).released, ¬ (job <+: p.cards ∧ job ≠ p.cards)) ↔
      PutsAll env.jesirput p.cards := by
  obtain ⟨n, hn, hput, hbefore, hend⟩ := putCards_eq env.jesirput 0 p.cards
  simp only [Nat.zero_add] at hbefore hend
  rw [submitLines]
  rcases hend with ⟨hall, rfl⟩ | ⟨hfail, hlt, hno⟩
  · have hwhole : (putCards env.jesirput 0 p.cards).1 = p.cards := by
      rw [hput, List.take_length]
    simp only [hall, if_true, hwhole]
    constructor
    · intro _ k _ hk _
      exact hbefore k hk
    · intro _ a _ job hjob hpart
      apply hpart.2
      cases hclose : env.jesircl2 with
      | none =>
        rw [hclose] at hjob
        exact (mem_closeReader.mp hjob).1
      | some jobid =>
        rw [hclose] at hjob
        exact (mem_closeReader.mp hjob).1
  · simp only [hfail, hput, Bool.false_eq_true, if_false]
    constructor
    · intro h k hpos hk hj
      rcases Nat.lt_trichotomy k n with hkn | rfl | hnk
      · exact hbefore k hkn
      · exfalso
        have hne : p.cards.take k ≠ p.cards := by
          intro heq
          have hlen := congrArg List.length heq
          rw [List.length_take] at hlen
          omega
        have hput : p.cards.take k ≠ [] := by
          apply List.ne_nil_of_length_pos
          rw [List.length_take]
          omega
        exact h _ rfl _ (mem_closeReader.mpr ⟨rfl, hput⟩) ⟨List.take_prefix _ _, hne⟩
      · rw [hj n hnk] at hno
        contradiction
    · intro h a _ job hjob _
      obtain ⟨-, hput⟩ := mem_closeReader.mp hjob
      have hpos : 0 < n := by
        apply Nat.pos_of_ne_zero
        rintro rfl
        exact hput rfl
      rw [h n hpos hlt hbefore] at hno
      contradiction

/-- **A failed submission submits nothing**, exactly if no put of its deck behind the first fails. -/
theorem submit_noPart_iff (env : SubmitEnv) (catalog : Text → Option JclDataset)
    (r : SubmitRequest) :
    r.NoPartSubmitted env catalog ↔
      ∀ p, r.prepare env catalog = .ok p → PutsAll env.jesirput p.cards := by
  rw [SubmitRequest.NoPartSubmitted, SubmitRequest.submit_eq]
  cases hprep : r.prepare env catalog with
  | error e =>
    constructor
    · intro _ p hp
      contradiction
    · rintro _ a _ job hjob -
      exact absurd rfl (mem_closeReader.mp hjob).2
  | ok p =>
    have hpart : ∀ job, r.IsPart env catalog job ↔ job <+: p.cards ∧ job ≠ p.cards := by
      intro job
      rw [SubmitRequest.IsPart, hprep]
      constructor
      · rintro ⟨q, hq, h⟩
        obtain rfl := Except.ok.inj hq
        exact h
      · intro h
        exact ⟨p, rfl, h⟩
    simp only [hpart, submitLines_part_iff]
    constructor
    · intro h q hq
      obtain rfl := Except.ok.inj hq
      exact h
    · intro h
      exact h p rfl

/-- The internal reader takes two cards of three. -/
theorem submit_part :
    ¬ ∀ env catalog (r : SubmitRequest), r.NoPartSubmitted env catalog := by
  intro h
  let env : SubmitEnv := ⟨true, fun _ => true, some ("U".toList, "P".toList), (· < 2), none⟩
  let r := SubmitRequest.content ("//J JOB 1".toList ++ EBCDIC_NEL :: "//S EXEC PGM=X".toList)
  let cards :=
    ["//J JOB 1,".toList,
      "//         NOTIFY=$MVSMF,USER=U,PASSWORD=P   GENERATED BY MVSMF".toList,
      "//S EXEC PGM=X".toList]
  have hcards : r.prepare env (fun _ => none) = .ok ⟨cards, "J".toList, none⟩ := by
    decide +kernel
  have hsubmit : r.submit env (fun _ => none) = ⟨.error serverError, [cards.take 2]⟩ := by
    rw [SubmitRequest.submit_eq, hcards]
    rfl
  have hpart := h env (fun _ => none) r serverError (by rw [hsubmit])
  rw [hsubmit] at hpart
  apply hpart (cards.take 2) (List.mem_singleton_self _)
  exact ⟨_, hcards, List.take_prefix _ _, by decide⟩

end Mvsmf
