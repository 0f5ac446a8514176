import Mvsmf.Jobs.Spool

/-!
# Requests for one job

`find_job_by_name_and_id` and the handlers that go through it. A request may open JES2 several times,
each time finding the queue as it then is; the answer comes with the number of times it was tried.
-/

namespace Mvsmf

open Jcl

/-! ## JES2 -/

inductive Canj where
  | ok | noJb | badI | syntx | iCan | outp | other (rc : Int)
deriving DecidableEq, Repr

/-- JES2 during a request: what each `jesopen()` gives, the queue or nothing; whether the queue can be
read behind it, and which of its jobs a filter selects; what `jescanj()` answers; and the spool of a
job. `httpCmp` is whether `http_cmp()` finds no difference. -/
structure JesWorld where
  jesopen : Nat → Option (List JesJob)
  reads : Nat → Bool
  selects : JesFilt → Text → JesJob → Bool
  httpCmp : Text → Text → Bool
  jescanj : Text → Text → Bool → Canj
  spool : JesJob → JobSpool

/-- A comparison that goes by the letters and not by their case. -/
def sameInAnyCase (a b : Text) : Bool := a.map Char.toUpper == b.map Char.toUpper

/-- The jobs of a queue that a filter selects. -/
def JesWorld.selected (w : JesWorld) (queue : List JesJob) (filter : Text) (jesfilt : JesFilt) :
    List JesJob :=
  queue.filter (w.selects jesfilt filter)

/-- `jesjob()` behind the `k`-th `jesopen()`. -/
def JesWorld.jesjob (w : JesWorld) (k : Nat) (queue : List JesJob) (filter : Text)
    (jesfilt : JesFilt) : Option (List JesJob) :=
  if w.reads k then some (w.selected queue filter jesfilt) else none

/-- The queue of the `k`-th `jesopen()`, where it can be read. -/
def JesWorld.readQueue (w : JesWorld) (k : Nat) : Option (List JesJob) :=
  if w.reads k then w.jesopen k else none

/-! ## The lookup -/

/-- The one job of the name and id; a second one leaves none. -/
def findMatch (httpCmp : Text → Text → Bool) (jobname jobid : Text) :
    Option JesJob → List JesJob → Option JesJob
  | found, [] => found
  | found, job :: jobs =>
    if !httpCmp job.jobname jobname then findMatch httpCmp jobname jobid found jobs
    else if job.jobid ≠ jobid then findMatch httpCmp jobname jobid found jobs
    else
      match found with
      | some _ => none
      | none => findMatch httpCmp jobname jobid (some job) jobs

/-- The job, if the caller may know of it, and the decision on it. -/
structure Found where
  job : Option JesJob
  decision : JwnDecision
deriving DecidableEq, Repr

/-- The policy on the job that was found. -/
def judge (ctx : JwnCtx) (op : JwnOp) : Option JesJob → Found
  | none => ⟨none, .hide⟩
  | some job =>
    let (verdict, _) := jobauthJob ctx (some []) op job
    ⟨if verdict = .hide then none else some job, verdict⟩

/-- `k` is how often JES2 was opened before. -/
def findJobByNameAndId (w : JesWorld) (ctx : JwnCtx) (k : Nat) (jobname jobid : Text)
    (op : JwnOp) : Found :=
  match w.jesopen k with
  | none => ⟨none, .hide⟩
  | some queue =>
    match w.jesjob k queue jobid .jobid with
    | none => ⟨none, .hide⟩
    | some jobs => judge ctx op (findMatch w.httpCmp jobname jobid none jobs)

/-- The jobs of the name and id. -/
def JesWorld.matching (w : JesWorld) (queue : List JesJob) (jobname jobid : Text) : List JesJob :=
  (w.selected queue jobid .jobid).filter fun job =>
    w.httpCmp job.jobname jobname && job.jobid == jobid

theorem findMatch_some (httpCmp : Text → Text → Bool) (jobname jobid : Text) (found : JesJob)
    (jobs : List JesJob) :
    findMatch httpCmp jobname jobid (some found) jobs =
      if (jobs.filter fun job => httpCmp job.jobname jobname && job.jobid == jobid) = [] then
        some found
      else none := by
  induction jobs with
  | nil => rfl
  | cons job jobs ih =>
    rw [findMatch, ih]
    by_cases hname : httpCmp job.jobname jobname = true
    · by_cases hid : job.jobid = jobid
      · simp [hname, hid]
      · simp [hname, hid]
    · simp [hname]

/-- The one job of a list. -/
def onlyOne : List JesJob → Option JesJob
  | [job] => some job
  | _ => none

theorem findMatch_none (httpCmp : Text → Text → Bool) (jobname jobid : Text)
    (jobs : List JesJob) :
    findMatch httpCmp jobname jobid none jobs =
      onlyOne (jobs.filter fun job => httpCmp job.jobname jobname && job.jobid == jobid) := by
  induction jobs with
  | nil => rfl
  | cons job jobs ih =>
    rw [findMatch]
    by_cases hname : httpCmp job.jobname jobname = true
    · by_cases hid : job.jobid = jobid
      · simp only [hname, hid, findMatch_some, List.filter_cons]
        generalize jobs.filter _ = rest
        cases rest with
        | nil => simp [onlyOne]
        | cons a rest => simp [onlyOne]
      · simp [hname, hid, ih]
    · simp [hname, ih]

/-- The lookup judges the one job of the name and id in a queue it could read. -/
theorem findJob_eq (w : JesWorld) (ctx : JwnCtx) (k : Nat) (jobname jobid : Text) (op : JwnOp) :
    findJobByNameAndId w ctx k jobname jobid op =
      match w.readQueue k with
      | none => ⟨none, .hide⟩
      | some queue => judge ctx op (onlyOne (w.matching queue jobname jobid)) := by
  unfold findJobByNameAndId JesWorld.readQueue JesWorld.jesjob
  cases w.jesopen k with
  | none => cases w.reads k <;> rfl
  | some queue =>
    cases w.reads k with
    | false => rfl
    | true =>
      simp only [if_true, findMatch_none]
      rfl

/-- The queue has the one job of the name and id, and the policy does not hide it. -/
def JesWorld.Present (w : JesWorld) (ctx : JwnCtx) (op : JwnOp) (queue : List JesJob)
    (jobname jobid : Text) : Prop :=
  ∃ job, w.matching queue jobname jobid = [job] ∧
    (jwnCheck ctx none (job.call op)).1.decision ≠ .hide

/-- A first check has nothing to remember. -/
theorem jwnCheck_first (ctx : JwnCtx) (c : JwnCall) :
    (jwnCheck ctx (some []) c).1 = (jwnCheck ctx none c).1 := by
  unfold jwnCheck
  split
  · rfl
  · split
    · rfl
    · cases c.entity with
      | none => rfl
      | some entity =>
        simp only [levelCached, List.find?_nil]
        split <;> rfl

theorem judge_some (ctx : JwnCtx) (op : JwnOp) (job : JesJob) :
    judge ctx op (some job) =
      ⟨if (jwnCheck ctx none (job.call op)).1.decision = .hide then none else some job,
        (jwnCheck ctx none (job.call op)).1.decision⟩ := by
  simp only [judge, jobauthJob, jwnCheck_first]

/-- **The lookup.** It answers the one job of the name and id the caller may know of, as the queue
has it. -/
theorem findJob_some (w : JesWorld) (ctx : JwnCtx) (k : Nat) (jobname jobid : Text) (op : JwnOp)
    (job : JesJob) :
    (findJobByNameAndId w ctx k jobname jobid op).job = some job ↔
      ∃ queue, w.readQueue k = some queue ∧ w.matching queue jobname jobid = [job] ∧
        (jwnCheck ctx none (job.call op)).1.decision ≠ .hide := by
  rw [findJob_eq]
  cases w.readQueue k with
  | none => simp
  | some queue =>
    simp only [Option.some.injEq, exists_eq_left']
    generalize w.matching queue jobname jobid = found
    rcases found with _ | ⟨a, _ | ⟨b, rest⟩⟩
    · simp [judge, onlyOne]
    · rw [onlyOne, judge_some]
      by_cases hhide : (jwnCheck ctx none (a.call op)).1.decision = .hide
      · rw [if_pos hhide]
        constructor
        · intro h
          cases h
        · rintro ⟨h, hne⟩
          cases h
          exact absurd hhide hne
      · rw [if_neg hhide]
        constructor
        · intro h
          cases h
          exact ⟨rfl, hhide⟩
        · rintro ⟨h, -⟩
          cases h
          rfl
    · simp [judge, onlyOne]

theorem findJob_none (w : JesWorld) (ctx : JwnCtx) (k : Nat) (jobname jobid : Text) (op : JwnOp) :
    (findJobByNameAndId w ctx k jobname jobid op).job = none ↔
      ∀ queue, w.readQueue k = some queue → ¬ w.Present ctx op queue jobname jobid := by
  rw [Option.eq_none_iff_forall_ne_some]
  constructor
  · intro h queue hqueue ⟨job, hmatch, hne⟩
    exact h job ((findJob_some w ctx k jobname jobid op job).mpr ⟨queue, hqueue, hmatch, hne⟩)
  · intro h job hjob
    obtain ⟨queue, hqueue, hmatch, hne⟩ := (findJob_some w ctx k jobname jobid op job).mp hjob
    exact h queue hqueue ⟨job, hmatch, hne⟩

/-- With a job goes the decision on it. -/
theorem findJob_decision {w : JesWorld} {ctx : JwnCtx} {k : Nat} {jobname jobid : Text}
    {op : JwnOp} {job : JesJob}
    (h : (findJobByNameAndId w ctx k jobname jobid op).job = some job) :
    (findJobByNameAndId w ctx k jobname jobid op).decision =
      (jwnCheck ctx none (job.call op)).1.decision := by
  rw [findJob_eq] at h ⊢
  generalize w.readQueue k = opened at h ⊢
  cases opened with
  | none => cases h
  | some queue =>
    dsimp only at h ⊢
    generalize onlyOne (w.matching queue jobname jobid) = found at h ⊢
    cases found with
    | none => cases h
    | some a =>
      rw [judge_some] at h ⊢
      split at h
      · cases h
      · cases h
        rfl

/-! ## Answers -/

/-- The request's own words, safe between the quotes of a JSON string. -/
def echoRequestField (s : Text) : Text :=
  (s.take 64).map fun c => if c < ' ' || c = '"' || c = '\\' then '?' else c

def jobReference (jobname jobid : Text) : String :=
  "Job '" ++ String.ofList jobname ++ "(" ++ String.ofList jobid ++ ")' "

def notFound (jobname jobid : Text) : Answer :=
  ⟨Answer.HTTP_STATUS_NOT_FOUND, Answer.CATEGORY_SERVICE, JobsAnswer.RC_WARNING,
    JobsAnswer.REASON_JOB_NOT_FOUND,
    jobReference (echoRequestField jobname) (echoRequestField jobid) ++ "not found", []⟩

def sendJobNotFound (jobname jobid : Text) : JobsAnswer := .error (notFound jobname jobid)

def sendNotAuthorized (detail : String) : JobsAnswer :=
  .error ⟨Answer.HTTP_STATUS_INTERNAL_SERVER_ERROR, JobsAnswer.CATEGORY_AUTHORIZATION,
    Answer.RC_ERROR, JobsAnswer.REASON_NOT_AUTHORIZED, "LMOPEN error", [detail]⟩

def badRequest (rc : Nat) (reason : Int) (message : String) : JobsAnswer :=
  .error ⟨Answer.HTTP_STATUS_BAD_REQUEST, Answer.CATEGORY_SERVICE, rc, reason, message, []⟩

/-- A path variable is missing. -/
def noPathParam (status : Nat) : JobsAnswer := .error { JobsAnswer.serverError with status := status }

/-! ## Status, files, records -/

def jobStatusHandler (env : ReportEnv) (w : JesWorld) (ctx : JwnCtx) :
    Option Text → Option Text → JobsAnswer × Nat
  | some jobname, some jobid =>
    match (findJobByNameAndId w ctx 0 jobname jobid .read).job with
    | none => (sendJobNotFound jobname jobid, 1)
    | some job => (.job (processJob env none none none none job).1, 1)
  | _, _ => (noPathParam Answer.HTTP_STATUS_BAD_REQUEST, 0)

def jobFilesHandler (env : ReportEnv) (w : JesWorld) (ctx : JwnCtx) :
    Option Text → Option Text → JobsAnswer × Nat
  | some jobname, some jobid =>
    match (findJobByNameAndId w ctx 0 jobname jobid .read).job with
    | none => (sendJobNotFound jobname jobid, 1)
    | some job => (.files (processJobFiles env w.httpCmp job), 1)
  | _, _ => (noPathParam Answer.HTTP_STATUS_INTERNAL_SERVER_ERROR, 0)

def jobRecordsHandler (w : JesWorld) (ctx : JwnCtx) :
    Option Text → Option Text → Option Text → JobsAnswer × Nat
  | some jobname, some jobid, some ddid =>
    match (findJobByNameAndId w ctx 0 jobname jobid .read).job with
    | none => (sendJobNotFound jobname jobid, 1)
    | some job =>
      let (ddidVal, rest) := CLib.strtol ddid
      if rest ≠ [] ∨ ddidVal < 0 then
        (badRequest Answer.RC_ERROR JobsAnswer.REASON_INVALID_QUERY "Invalid DDID parameter", 1)
      else if !job.dds.any (·.dsid == ddidVal.toNat) then
        (badRequest Answer.RC_ERROR JobsAnswer.REASON_INVALID_QUERY "DDID not found for job", 1)
      else (doPrintSysout (w.jesopen 1).isSome (w.spool job) job ddidVal.toNat, 2)
  | _, _, _ => (noPathParam Answer.HTTP_STATUS_INTERNAL_SERVER_ERROR, 0)

/-! ## Purge and cancel -/

def PURGE_LOOKS : Nat := 5

/-- The looks that are left, from the `k`-th `jesopen()` on: whether all of them find the job, and
how often JES2 has been opened behind them. -/
def stillQueued (w : JesWorld) (ctx : JwnCtx) (jobname jobid : Text) : Nat → Nat → Bool × Nat
  | 0, k => (true, k)
  | looks + 1, k =>
    match (findJobByNameAndId w ctx k jobname jobid .purge).job with
    | none => (false, k + 1)
    | some _ => stillQueued w ctx jobname jobid looks (k + 1)

def jobStillQueued (w : JesWorld) (ctx : JwnCtx) (jobname jobid : Text) (k : Nat) : Bool × Nat :=
  stillQueued w ctx jobname jobid PURGE_LOOKS k

def MSG_PURGE_PENDING : String :=
  "Purge requested. JES2 keeps the job marked for purge until the output it holds is released."
def MSG_SUCCESSFUL : String := "Request was successful."

def feedback (job : JesJob) (pending : Bool) : PurgeFeedback :=
  let id := jwnPrintable JWN_PRTSZ job.jobid
  ⟨id, (if pending then MSG_PURGE_PENDING else MSG_SUCCESSFUL).toList, id,
    jwnPrintable JWN_PRTSZ job.jobname, jwnPrintable JWN_PRTSZ job.owner, 0⟩

/-- What is made of the cancel's return code. -/
def cancelAnswer (w : JesWorld) (ctx : JwnCtx) (purge : Bool) (jobname jobid : Text) (job : JesJob) :
    JobsAnswer × Nat :=
  let cancelName := job.jobname.take 8
  let cancelId := job.jobid.take 8
  match w.jescanj cancelName cancelId purge with
  | .ok =>
    if purge then
      let (pending, k) := jobStillQueued w ctx cancelName cancelId 1
      (.feedback (feedback job pending), k)
    else (.feedback (feedback job false), 1)
  | .noJb | .badI | .syntx => (sendJobNotFound jobname jobid, 1)
  | .iCan =>
    if purge then
      (badRequest JobsAnswer.RC_WARNING JobsAnswer.REASON_STC_PURGE "Cannot purge a started task", 1)
    else
      (badRequest JobsAnswer.RC_WARNING JobsAnswer.REASON_STC_CANCEL
        "Cannot cancel a started task or a TSO user", 1)
  | .outp =>
    if purge then (.error JobsAnswer.serverError, 1)
    else
      (badRequest JobsAnswer.RC_WARNING JobsAnswer.REASON_JOB_ON_OUTPUT_QUEUE
        (jobReference (jwnPrintable JWN_PRTSZ job.jobname) (jwnPrintable JWN_PRTSZ job.jobid) ++
          "is on the output queue and is not running"), 1)
  | .other _ => (.error JobsAnswer.serverError, 1)

def cancelJob (w : JesWorld) (ctx : JwnCtx) (purge : Bool) :
    Option Text → Option Text → JobsAnswer × Nat
  | some jobname, some jobid =>
    let found := findJobByNameAndId w ctx 0 jobname jobid .purge
    match found.job with
    | none => (sendJobNotFound jobname jobid, 1)
    | some job =>
      if found.decision ≠ .allow then
        (sendNotAuthorized (if purge then "Authorization failed - You may not purge this job."
          else "Authorization failed - You may not cancel this job."), 1)
      else cancelAnswer w ctx purge jobname jobid job
  | _, _ => (noPathParam Answer.HTTP_STATUS_BAD_REQUEST, 0)

/-- What the body of an update asks for. -/
inductive JobUpdate where
  | none | cancel | hold | release | unknown
deriving DecidableEq, Repr

def notImplemented (request : String) : JobsAnswer :=
  badRequest Answer.RC_ERROR JobsAnswer.REASON_JOB_REQUEST_NOT_IMPLEMENTED
    ("Update request '" ++ request ++ "' is not implemented")

/-- `body` is what the body was read as, or the answer to one that could not be. -/
def jobCancelHandler (w : JesWorld) (ctx : JwnCtx) (body : Except Answer JobUpdate)
    (jobname jobid : Option Text) : JobsAnswer × Nat :=
  match body with
  | .error a => (.error a, 0)
  | .ok .cancel => cancelJob w ctx false jobname jobid
  | .ok .hold => (notImplemented "hold", 0)
  | .ok .release => (notImplemented "release", 0)
  | .ok .unknown =>
    (badRequest Answer.RC_ERROR JobsAnswer.REASON_INVALID_REQUEST
      "Update request is not 'cancel', 'hold' or 'release'", 0)
  | .ok .none =>
    (badRequest Answer.RC_ERROR JobsAnswer.REASON_INVALID_REQUEST
      "Request does not contain a valid job update request", 0)

/-! ## Requests -/

inductive JobsRequest where
  | list (q : JobListQuery)
  | status (jobname jobid : Option Text)
  | files (jobname jobid : Option Text)
  | records (jobname jobid ddid : Option Text)
  | purge (jobname jobid : Option Text)
  | cancel (body : Except Answer JobUpdate) (jobname jobid : Option Text)

/-- The answer, and how often JES2 was opened for it. -/
def jobsHandler (env : ReportEnv) (w : JesWorld) (ctx : JwnCtx) : JobsRequest → JobsAnswer × Nat
  | .list q =>
    -- the list does not ask whether `jesjob()` gave anything: `array_count()` of nothing is 0
    (jobListHandler env ctx q ((w.jesopen 0).map fun queue filter jesfilt =>
      (w.jesjob 0 queue filter jesfilt).getD []), 1)
  | .status jobname jobid => jobStatusHandler env w ctx jobname jobid
  | .files jobname jobid => jobFilesHandler env w ctx jobname jobid
  | .records jobname jobid ddid => jobRecordsHandler w ctx jobname jobid ddid
  | .purge jobname jobid => cancelJob w ctx true jobname jobid
  | .cancel body jobname jobid => jobCancelHandler w ctx body jobname jobid

end Mvsmf
