import Mvsmf.Jobs.JesJob
import Mvsmf.Lib.Strtoul

/-!
# The job list

`jobListHandler`. The owner asked for is resolved once, which may take a probe of RACF; the jobs
`jesjob()` returns then go through the filters and, last, through the policy, until as many as asked
for have come out.
-/

namespace Mvsmf

open Jcl

/-! ## Answers -/

/-- The document of a purge or a cancel. -/
structure PurgeFeedback where
  jobid : Text
  message : Text
  originalJobid : Text
  jobname : Text
  owner : Text
  status : Nat
deriving DecidableEq, Repr

/-- An error report, or one of the documents of a 200. -/
inductive JobsAnswer where
  | error (a : Answer)
  | jobs (entries : List JobEntry)
  | job (entry : Option JobEntry)
  | files (entries : List FileEntry)
  | spool (output : List Text)
  | feedback (f : PurgeFeedback)
deriving DecidableEq, Repr

namespace JobsAnswer

def CATEGORY_AUTHORIZATION : Nat := 4
def CATEGORY_VSAM : Nat := 7
def CATEGORY_UNEXPECTED : Nat := 8

def RC_WARNING : Nat := 4
def RC_SEVERE : Nat := 16

def REASON_NOT_AUTHORIZED : Int := 0
def REASON_SERVER_ERROR : Int := 1
def REASON_JOB_NOT_FOUND : Int := 2
def REASON_INVALID_QUERY : Int := 3
def REASON_INVALID_REQUEST : Int := 4
def REASON_STC_PURGE : Int := 5
def REASON_INCORRECT_JES_VSAM_HANDLE : Int := 6
def REASON_SPOOL_GONE : Int := 10
def REASON_SPOOL_READ : Int := 11
def REASON_STC_CANCEL : Int := 13
def REASON_JOB_ON_OUTPUT_QUEUE : Int := 14
def REASON_JOB_REQUEST_NOT_IMPLEMENTED : Int := 15

def ERR_MSG_SERVER_ERROR : String := "Internal server error occurred"
def ERR_MSG_INCORRECT_JES_VSAM_HANDLE : String :=
  "Unable to open JES2 checkpoint and spool datasets"

def serverError : Answer :=
  ⟨Answer.HTTP_STATUS_INTERNAL_SERVER_ERROR, CATEGORY_UNEXPECTED, RC_SEVERE, REASON_SERVER_ERROR,
    ERR_MSG_SERVER_ERROR, []⟩

/-- `jesopen()` failed; the handlers report it under different categories. -/
def jesUnavailable (category : Nat) : Answer :=
  ⟨Answer.HTTP_STATUS_INTERNAL_SERVER_ERROR, category, RC_SEVERE,
    REASON_INCORRECT_JES_VSAM_HANDLE, ERR_MSG_INCORRECT_JES_VSAM_HANDLE, []⟩

end JobsAnswer

/-! ## The caller -/

/-- `jobauth_init`: whether there is an ACEE, the userid, and the ACEE's answers from RACF. -/
def jobauthInit (acee : Bool) (userid : Option Text) (racf : Text → Bool → Int) : JwnCtx :=
  ⟨acee, (truncated JWN_PRTSZ (userid.getD [])).map Char.toUpper, some racf⟩

/-- A job is judged on what it says of itself. -/
def JesJob.call (op : JwnOp) (job : JesJob) : JwnCall := ⟨op, job.owner, job.jobname, job.jobid⟩

def jobauthJob (ctx : JwnCtx) (cache : Option JwnCache) (op : JwnOp) (job : JesJob) :
    JwnDecision × Option JwnCache :=
  let (r, cache) := jwnCheck ctx cache (job.call op)
  (r.decision, cache)

def JwnLevel.readable : JwnLevel → Bool
  | .read => true
  | .update => true
  | _ => false

def jobauthProbe (ctx : JwnCtx) (userid : Text) : Bool :=
  ctx.aceePresent &&
    match jwnProbe JWN_ENTSZ userid with
    | none => false
    | some probe => (jwnLevel ctx probe false).level.readable

/-! ## Filters -/

inductive JesFilt where
  | none | jobname | jobid
deriving DecidableEq, Repr

/-- The query parameters of the list. -/
structure JobListQuery where
  owner : Option Text
  namePrefix : Option Text
  status : Option Text
  jobid : Option Text
  maxJobs : Option Text
deriving DecidableEq, Repr

def MAX_JOBS_LIMIT : Nat := 1000
def UINT_MAX : Nat := 0xFFFFFFFF
def STATUS_STR_SIZE : Nat := 16

def getMaxJobs (maxJobsStr : Option Text) : Nat :=
  let maxJobs :=
    match maxJobsStr with
    | none => MAX_JOBS_LIMIT
    | some s =>
      let (val, rest) := CLib.strtol s
      if rest = [] ∧ val > 0 ∧ val.toNat ≤ UINT_MAX then val.toNat else MAX_JOBS_LIMIT
  if maxJobs = 0 then 1 else if maxJobs > MAX_JOBS_LIMIT then MAX_JOBS_LIMIT else maxJobs

/-- A value that starts with an asterisk is no filter. -/
def unlessStar (value : Option Text) : Option Text := value.filter (·.head? ≠ some '*')

/-- What goes to `jesjob()`, and the status to compare with, empty for any. -/
def processJobListFilters (q : JobListQuery) : Text × JesFilt × Text :=
  let status := (truncated STATUS_STR_SIZE ((unlessStar q.status).getD [])).map Char.toUpper
  match unlessStar q.namePrefix, q.jobid with
  | some p, none => (p, .jobname, status)
  | _, some id => (id, .jobid, status)
  | none, none => ([], .none, status)

/-- The owner the list is limited to, or nothing that can match. -/
def resolveOwnerFilter (ctx : JwnCtx) (requested : Option Text) : Option Text :=
  let (kind, out) := jwnNarrows ctx.user (requested.getD []) JWN_PRTSZ
  let own := truncated JWN_PRTSZ ctx.user
  let own := if own.isEmpty then none else some own
  match kind with
  | .reset => own
  | .own => own
  | .all => if jobauthProbe ctx [] then some out else own
  | .other => if jobauthProbe ctx out then some out else none
  | .bad => none

def SYSLOG : Text := "SYSLOG".toList
def INIT : Text := "INIT".toList

def shouldSkipJob (job : JesJob) (owner status : Option Text) : Bool :=
  (match owner with
    | some owner => !jwnMatch owner job.owner
    | none => false) ||
  job.queInit || job.jobname == SYSLOG || job.jobname == INIT ||
  match status with
  | some status => jobStatusStr job != status
  | none => false

/-! ## `jobListHandler` -/

/-- The entry of a job, unless a filter or the policy keeps it back. No `ja`: the caller has been
cleared for the job. -/
def processJob (env : ReportEnv) (ja : Option JwnCtx) (cache : Option JwnCache)
    (owner status : Option Text) (job : JesJob) : Option JobEntry × Option JwnCache :=
  if shouldSkipJob job owner status then (none, cache)
  else
    match ja with
    | none => (some (jobEntry env job), cache)
    | some ctx =>
      let (decision, cache) := jobauthJob ctx cache .list job
      (if decision ≠ .allow then none else some (jobEntry env job), cache)

/-- The loop over the jobs; `maxJobs` counts what came out. -/
def listJobs (env : ReportEnv) (ctx : JwnCtx) (owner status : Option Text) (maxJobs : Nat) :
    Nat → Option JwnCache → List JesJob → List JobEntry
  | _, _, [] => []
  | emitted, cache, job :: jobs =>
    if emitted < maxJobs then
      match processJob env (some ctx) cache owner status job with
      | (some entry, cache) => entry :: listJobs env ctx owner status maxJobs (emitted + 1) cache jobs
      | (none, cache) => listJobs env ctx owner status maxJobs emitted cache jobs
    else []

/-- `jesopen` is what `jesopen()` gives: nothing, or a queue `jesjob()` can be asked for. -/
def jobListHandler (env : ReportEnv) (ctx : JwnCtx) (q : JobListQuery)
    (jesopen : Option (Text → JesFilt → List JesJob)) : JobsAnswer :=
  let owner := resolveOwnerFilter ctx q.owner
  let (filter, jesfilt, status) := processJobListFilters q
  match jesopen with
  | none => .error (JobsAnswer.jesUnavailable JobsAnswer.CATEGORY_VSAM)
  | some jesjob =>
    match owner with
    | none => .jobs []
    | some owner =>
      .jobs (listJobs env ctx (some owner) (if status.isEmpty then none else some status)
        (getMaxJobs q.maxJobs) 0 (some []) (jesjob filter jesfilt))

/-! ## What the list is for -/

/-- The jobs an owner value asks for. -/
def ownerSelects (ctx : JwnCtx) (racf : Text → Bool → Int) (requested : Option Text)
    (job : JesJob) : Bool :=
  let value := (requested.getD []).map Char.toUpper
  let own := job.owner == ctx.user
  if value = [] ∨ value = ctx.user then own
  else if value = ['*'] then racf ['.', '.'] false == 0 || own
  else jwnComponentOk value && racf (value ++ ['.', '.']) false == 0 && job.owner == value

/-- The job's own: READ on its entity, or the caller's. -/
def visible (ctx : JwnCtx) (racf : Text → Bool → Int) (job : JesJob) : Bool :=
  job.owner == ctx.user ||
    match (job.call .list).entity with
    | some entity => racf entity false == 0
    | none => false

def isSystem (job : JesJob) : Bool := job.queInit || job.jobname == SYSLOG || job.jobname == INIT

/-- A job of the status asked for: any if none is, or one that starts with an asterisk. -/
def statusSelects (requested : Option Text) (job : JesJob) : Bool :=
  match unlessStar requested with
  | none => true
  | some status => status.isEmpty || jobStatusStr job == status.map Char.toUpper

def listed (ctx : JwnCtx) (racf : Text → Bool → Int) (q : JobListQuery) (job : JesJob) : Bool :=
  !isSystem job && statusSelects q.status job && ownerSelects ctx racf q.owner job &&
    visible ctx racf job

/-! ## One value at a time -/

theorem chars_above_blank : JWN_CHARS.all (fun c => !decide (c ≤ ' ')) = true := by
  decide +kernel

theorem jwnComponentOk_iff {s : Text} :
    jwnComponentOk s = true ↔
      s ≠ [] ∧ s.length ≤ JWN_COMPMAX ∧ ∀ c ∈ s, c ∈ JWN_CHARS := by
  simp [jwnComponentOk, and_assoc]

theorem hasFiller_of_ok {s : Text} (h : jwnComponentOk s = true) : hasFiller s = false := by
  rw [hasFiller, List.any_eq_false]
  intro c hc
  simpa using List.all_eq_true.mp chars_above_blank c ((jwnComponentOk_iff.mp h).2.2 c hc)

theorem ne_star_of_ok {s : Text} (h : jwnComponentOk s = true) : s ≠ ['*'] := by
  rintro rfl
  exact absurd h (by decide)

theorem jwnMine_iff {owner user : Text} (h : jwnComponentOk user = true) :
    jwnMine owner user = (owner == user) := by
  have huser := (jwnComponentOk_iff.mp h).1
  by_cases ho : owner = user
  · subst ho
    simp [jwnMine, hasFiller_of_ok h, huser]
  · simp [jwnMine, ho]

theorem jwnMatch_ok {pattern owner : Text} (h : jwnComponentOk pattern = true) :
    jwnMatch pattern owner = (owner == pattern) := by
  have hne := (jwnComponentOk_iff.mp h).1
  rw [jwnMatch, if_neg (by simpa using hne), if_neg (ne_star_of_ok h), h]
  by_cases ho : owner = pattern
  · simp [ho, hne]
  · simp [ho]

theorem jwnMatch_star (owner : Text) : jwnMatch ['*'] owner = true := rfl

/-! ## The owner filter -/

/-- A caller the list is for: an ACEE, a valid userid, and RACF to answer. -/
structure JwnCtx.Caller (ctx : JwnCtx) (racf : Text → Bool → Int) : Prop where
  acee : ctx.aceePresent = true
  user : jwnComponentOk ctx.user = true
  auth : ctx.auth = some racf

variable {ctx : JwnCtx} {racf : Text → Bool → Int}

theorem JwnCtx.Caller.readable (h : ctx.Caller racf) (entity : Text) :
    (jwnLevel ctx entity false).level.readable = (racf entity false == 0) := by
  rw [jwnLevel, h.auth]
  by_cases h0 : racf entity false = 0
  · simp [h0, JwnLevel.readable]
  · by_cases h4 : racf entity false = 4
    · simp [h4, JwnLevel.readable]
    · by_cases h8 : racf entity false = 8
      · simp [h8, JwnLevel.readable]
      · simp [h0, h4, h8, JwnLevel.readable]

theorem JwnCtx.Caller.probe_all (h : ctx.Caller racf) :
    jobauthProbe ctx [] = (racf ['.', '.'] false == 0) := by
  rw [jobauthProbe, h.acee, Bool.true_and, ← h.readable]
  rfl

theorem JwnCtx.Caller.probe (h : ctx.Caller racf) {userid : Text}
    (hok : jwnComponentOk userid = true) :
    jobauthProbe ctx userid = (racf (userid ++ ['.', '.']) false == 0) := by
  have hlen : userid.length ≤ 8 := (jwnComponentOk_iff.mp hok).2.1
  have hprobe : jwnProbe JWN_ENTSZ userid = some (userid ++ ['.', '.']) := by
    rw [jwnProbe, if_neg (by simp [hok]), if_neg (by simp only [JWN_ENTSZ]; omega)]
  rw [jobauthProbe, h.acee, Bool.true_and, hprobe, ← h.readable]

theorem JwnCtx.Caller.own (h : ctx.Caller racf) :
    (if (truncated JWN_PRTSZ ctx.user).isEmpty then none else some (truncated JWN_PRTSZ ctx.user)) =
      some ctx.user := by
  obtain ⟨hne, hlen, -⟩ := jwnComponentOk_iff.mp h.user
  have htrunc : truncated JWN_PRTSZ ctx.user = ctx.user := List.take_of_length_le hlen
  rw [htrunc, if_neg (by simpa using hne)]

/-- **The owner filter.** What it resolves to matches the jobs the value asks for. -/
theorem JwnCtx.Caller.resolve (h : ctx.Caller racf) (requested : Option Text) (job : JesJob) :
    (match resolveOwnerFilter ctx requested with
      | some owner => jwnMatch owner job.owner
      | none => false) = ownerSelects ctx racf requested job := by
  generalize hvalue : requested.getD [] = value
  simp only [resolveOwnerFilter, ownerSelects, hvalue, h.own]
  have huser := jwnComponentOk_iff.mp h.user
  by_cases hlen : value.length > JWN_COMPMAX
  · have hup : (value.map Char.toUpper).length > JWN_COMPMAX := by rwa [List.length_map]
    have hbad : jwnNarrows ctx.user value JWN_PRTSZ = (.bad, []) := by
      rw [jwnNarrows, if_pos (by simp [hlen])]
    have hno : jwnComponentOk (value.map Char.toUpper) = false := by
      simp [jwnComponentOk, Nat.not_le.mpr hlen]
    have hown : ¬ (value.map Char.toUpper = [] ∨ value.map Char.toUpper = ctx.user) := by
      rintro (hnil | hown)
      · rw [hnil] at hup
        simp at hup
      · rw [hown] at hup
        exact absurd huser.2.1 (Nat.not_le.mpr hup)
    have hstar : value.map Char.toUpper ≠ ['*'] := by
      intro hstar
      rw [hstar] at hup
      exact absurd hup (by decide)
    simp only [hbad, hno, if_neg hown, if_neg hstar, Bool.false_and]
  · generalize hup : value.map Char.toUpper = up
    have hkind : jwnNarrows ctx.user value JWN_PRTSZ =
        if up.isEmpty then (.reset, up)
        else if jwnMine up ctx.user then (.own, up)
        else if up = ['*'] then (.all, up)
        else if jwnComponentOk up then (.other, up)
        else (.bad, []) := by
      rw [jwnNarrows, if_neg (by simp [hlen]), hup]
    rw [hkind, jwnMine_iff h.user]
    by_cases hnil : up = []
    · subst hnil
      exact jwnMatch_ok h.user
    · by_cases hown : up = ctx.user
      · subst hown
        simp [hnil, jwnMatch_ok h.user]
      · by_cases hstar : up = ['*']
        · subst hstar
          by_cases hall : racf ['.', '.'] false = 0
          · simp [hown, h.probe_all, hall, jwnMatch_star]
          · simp [hown, h.probe_all, hall, jwnMatch_ok h.user]
        · by_cases hok : jwnComponentOk up = true
          · by_cases hx : racf (up ++ ['.', '.']) false = 0
            · simp [hnil, hown, hstar, hok, h.probe hok, hx, jwnMatch_ok hok]
            · simp [hnil, hown, hstar, hok, h.probe hok, hx]
          · simp [hnil, hown, hstar, hok]

/-! ## The status filter -/

theorem jobStatusStr_length (job : JesJob) : (jobStatusStr job).length ≤ 7 := by
  unfold jobStatusStr
  repeat' split
  all_goals decide

/-- A value cut to the buffer is no status, as the whole value is none. -/
theorem status_truncated (job : JesJob) (value : Text) :
    (jobStatusStr job == (truncated STATUS_STR_SIZE value).map Char.toUpper) =
      (jobStatusStr job == value.map Char.toUpper) := by
  by_cases hlen : value.length ≤ 15
  · rw [truncated, STATUS_STR_SIZE, List.take_of_length_le hlen]
  · have hst := jobStatusStr_length job
    have hne : ∀ s : Text, 15 ≤ s.length → (jobStatusStr job == s) = false := by
      intro s hs
      apply beq_false_of_ne
      rintro rfl
      omega
    rw [hne _ (by simp [truncated, STATUS_STR_SIZE]; omega), hne _ (by simp; omega)]

theorem shouldSkipJob_eq (q : JobListQuery) (owner : Text) (job : JesJob) :
    shouldSkipJob job (some owner)
        (if (processJobListFilters q).2.2.isEmpty then none else some (processJobListFilters q).2.2) =
      !(!isSystem job && statusSelects q.status job && jwnMatch owner job.owner) := by
  have hst : (processJobListFilters q).2.2 =
      (truncated STATUS_STR_SIZE ((unlessStar q.status).getD [])).map Char.toUpper := by
    unfold processJobListFilters
    split <;> rfl
  rw [hst]
  simp only [shouldSkipJob, isSystem, statusSelects]
  cases unlessStar q.status with
  | none => cases jwnMatch owner job.owner <;> simp [truncated, Bool.or_assoc]
  | some value =>
    by_cases hnil : value = []
    · subst hnil
      cases jwnMatch owner job.owner <;> simp [truncated, Bool.or_assoc]
    · have hne : (truncated STATUS_STR_SIZE value).map Char.toUpper ≠ [] := by
        simp [truncated, STATUS_STR_SIZE, hnil]
      rw [Option.getD_some, if_neg (by simpa using hne)]
      simp only [bne, status_truncated, List.isEmpty_eq_false_iff.mpr hnil, Bool.false_or]
      cases jwnMatch owner job.owner <;> cases job.queInit <;> cases job.jobname == SYSLOG <;>
        cases job.jobname == INIT <;> simp

/-! ## The loop -/

/-- The policy alone lets the job into a list. -/
def mayList (ctx : JwnCtx) (job : JesJob) : Bool :=
  (jwnCheck ctx none (job.call .list)).1.decision == .allow

theorem JwnCtx.Caller.mayList_eq (h : ctx.Caller racf) (job : JesJob) :
    mayList ctx job = visible ctx racf job := by
  have huser := (jwnComponentOk_iff.mp h.user).1
  have howner : (job.call .list).owner = job.owner := rfl
  rw [Bool.eq_iff_iff, mayList, beq_iff_eq, jwnCheck_allow, visible, howner, jwnMine_iff h.user]
  simp only [h.acee, h.auth, huser, ne_eq, not_false_eq_true, true_and, Option.some.injEq,
    Bool.or_eq_true]
  refine or_congr Iff.rfl ?_
  cases (job.call .list).entity with
  | none => simp
  | some entity => simp [JesJob.call]

/-- One job: its entry if no filter skips it and the caller may see it. -/
theorem processJob_eq (hcuts : ctx.Cuts) {cache : Option JwnCache} (hs : ctx.Sound cache)
    (env : ReportEnv) (owner status : Option Text) (job : JesJob) :
    (processJob env (some ctx) cache owner status job).1 =
        (if !shouldSkipJob job owner status && mayList ctx job then some (jobEntry env job)
          else none) ∧
      ctx.Sound (processJob env (some ctx) cache owner status job).2 := by
  obtain ⟨hsame, hsound⟩ := jwnCheck_spec hcuts hs (job.call .list)
  unfold processJob
  cases shouldSkipJob job owner status with
  | true => exact ⟨rfl, hs⟩
  | false =>
    refine ⟨?_, hsound⟩
    by_cases hallow : (jwnCheck ctx none (job.call .list)).1.decision = .allow
    · simp [jobauthJob, hsame.decision, mayList, hallow]
    · simp [jobauthJob, hsame.decision, mayList, hallow]

/-- **The loop.** What comes out are the first of the jobs that no filter and not the policy keeps
back. The cache on the way is any sound one. -/
theorem listJobs_eq (hcuts : ctx.Cuts) (env : ReportEnv) (owner status : Option Text)
    (maxJobs emitted : Nat) {cache : Option JwnCache} (hs : ctx.Sound cache)
    (jobs : List JesJob) :
    listJobs env ctx owner status maxJobs emitted cache jobs =
      ((jobs.filter fun job => !shouldSkipJob job owner status && mayList ctx job).take
        (maxJobs - emitted)).map (jobEntry env) := by
  induction jobs generalizing emitted cache with
  | nil => simp [listJobs]
  | cons job jobs ih =>
    rw [listJobs]
    by_cases hroom : emitted < maxJobs
    · rw [if_pos hroom]
      obtain ⟨hentry, hsound⟩ := processJob_eq hcuts hs env owner status job
      generalize processJob env (some ctx) cache owner status job = r at hentry hsound
      obtain ⟨entry, cache'⟩ := r
      dsimp only at hentry hsound
      by_cases hp : (!shouldSkipJob job owner status && mayList ctx job) = true
      · rw [if_pos hp] at hentry
        subst hentry
        rw [List.filter_cons, if_pos hp, show maxJobs - emitted = maxJobs - (emitted + 1) + 1 by omega,
          List.take_succ_cons, List.map_cons]
        exact congrArg _ (ih (emitted + 1) hsound)
      · rw [if_neg hp] at hentry
        subst hentry
        rw [List.filter_cons, if_neg hp]
        exact ih emitted hsound
    · rw [if_neg hroom, Nat.sub_eq_zero_of_le (Nat.le_of_not_lt hroom)]
      simp

/-- **The job list.** With a RACF that cuts its entities, for every caller, query and answer of
`jesjob()`: the first jobs, as many as asked for, that are not system entries, have the status, are
asked for by the owner value, and are visible on their own. -/
theorem jobListHandler_eq (env : ReportEnv) (ctx : JwnCtx) (racf : Text → Bool → Int)
    (h : ctx.Caller racf) (hcuts : ctx.Cuts) (q : JobListQuery)
    (jesjob : Text → JesFilt → List JesJob) :
    jobListHandler env ctx q (some jesjob) =
      .jobs ((((jesjob (processJobListFilters q).1 (processJobListFilters q).2.1).filter
        (listed ctx racf q)).take (getMaxJobs q.maxJobs)).map (jobEntry env)) := by
  simp only [jobListHandler]
  cases hr : resolveOwnerFilter ctx q.owner with
  | none =>
    have hno : ∀ job, listed ctx racf q job = false := by
      intro job
      have := h.resolve q.owner job
      rw [hr] at this
      simp [listed, ← this]
    simp [hno]
  | some owner =>
    have hall : ∀ job, listed ctx racf q job =
        (!shouldSkipJob job (some owner)
          (if (processJobListFilters q).2.2.isEmpty then none
            else some (processJobListFilters q).2.2) && mayList ctx job) := by
      intro job
      have := h.resolve q.owner job
      rw [hr] at this
      rw [shouldSkipJob_eq, Bool.not_not, listed, ← this, h.mayList_eq]
    rw [funext hall]
    exact congrArg _ (listJobs_eq hcuts env (some owner) _ _ 0 ctx.sound_init _)

/-- A job on the execution queue with nothing else to it. -/
def activeJob (jobname jobid owner : Text) : JesJob where
  jobname := jobname
  jobid := jobid
  owner := owner
  sysid := []
  queues := ⟨true, false, false, false, false, false, false⟩
  queInit := false
  eclass := 'A'
  completion := 0
  jtflg := ⟨false, false, false⟩
  startTime := 0
  endTime := 0
  dds := []

/-- All jobs asked for, RACF having a profile for the jobs of `A` and none for `..`. -/
theorem jobListHandler_eq_own :
    let racf : Text → Bool → Int := fun e _ => if e.take 2 = ['A', '.'] then 0 else 4
    let ctx := jobauthInit true (some ['u']) racf
    let env : ReportEnv := ⟨none, [], false, fun _ => none⟩
    let own := activeJob ['N'] ['J', '1'] ['U']
    jobListHandler env ctx ⟨some ['*'], none, none, none, none⟩
      (some fun _ _ => [activeJob ['N'] ['J', '2'] ['A'], own]) = .jobs [jobEntry env own] := by
  intro racf ctx env own
  have hcuts : ctx.Cuts :=
    cuts_of_take (n := 2) (by decide) (fun p _ => if p = ['A', '.'] then 0 else 4) rfl
  exact (jobListHandler_eq env ctx racf ⟨rfl, by decide, rfl⟩ hcuts _ _).trans (by decide)

/-- A RACF that looks past the eighth character: what it says of one job is remembered for the next
one of the owner whose name begins the same, which it denies. -/
theorem jobListHandler_cached :
    let racf : Text → Bool → Int := fun e _ =>
      if e = "..".toList ∨ e = "A.PAYROLL1.J1".toList then 0 else 8
    let ctx := jobauthInit true (some ['U']) racf
    let env : ReportEnv := ⟨none, [], false, fun _ => none⟩
    let q : JobListQuery := ⟨some ['*'], none, none, none, none⟩
    let jobs := [activeJob "PAYROLL1".toList ['J', '1'] ['A'],
      activeJob "PAYROLL2".toList ['J', '2'] ['A']]
    jobListHandler env ctx q (some fun _ _ => jobs) ≠
      .jobs (((jobs.filter (listed ctx racf q)).take (getMaxJobs q.maxJobs)).map (jobEntry env)) := by
  decide

end Mvsmf
