import Mvsmf.Jobs.JobRequests

/-!
# JES2 outages

What a request answers when a `jesopen()` it comes to fails, or a `jesjob()` behind it. The list and
the spool output report the first; the lookup of one job makes no difference between a queue it could
not open, one it could not read and one without the job, and its callers answer as if they had looked.
Nor does the list tell a queue it could not read from an empty one.
-/

namespace Mvsmf

open Jcl

/-! ## What an answer says -/

/-- An error of the 500 class. -/
def JobsAnswer.serverFault : JobsAnswer → Bool
  | .error a => 500 ≤ a.status && a.status < 600
  | _ => false

/-- The job a request is about, and what it is looked up for. -/
def JobsRequest.reference : JobsRequest → Option (Text × Text × JwnOp)
  | .status (some jobname) (some jobid) => some (jobname, jobid, .read)
  | .files (some jobname) (some jobid) => some (jobname, jobid, .read)
  | .records (some jobname) (some jobid) (some _) => some (jobname, jobid, .read)
  | .purge (some jobname) (some jobid) => some (jobname, jobid, .purge)
  | .cancel (.ok .cancel) (some jobname) (some jobid) => some (jobname, jobid, .purge)
  | _ => none

/-- JES2 knows no such job. -/
def Canj.unknown : Canj → Bool
  | .noJb => true
  | .badI => true
  | .syntx => true
  | _ => false

/-- The job a request has JES2 cancel, and whether its output goes too. -/
def JobsRequest.cancels : JobsRequest → Option (Text × Text × Bool)
  | .purge (some jobname) (some jobid) => some (jobname, jobid, true)
  | .cancel (.ok .cancel) (some jobname) (some jobid) => some (jobname, jobid, false)
  | _ => none

/-- The lookup has found the job, and the caller may purge it. -/
structure CancelAsked (w : JesWorld) (ctx : JwnCtx) (jobname jobid : Text) (job : JesJob) :
    Prop where
  found : ∃ queue, w.readQueue 0 = some queue ∧ w.matching queue jobname jobid = [job]
  allowed : (jwnCheck ctx none (job.call .purge)).1.decision = .allow

/-- JES2 has taken the purge of the job. -/
structure PurgeTaken (w : JesWorld) (ctx : JwnCtx) (jobname jobid : Text) (job : JesJob) : Prop
    extends CancelAsked w ctx jobname jobid job where
  taken : w.jescanj (job.jobname.take 8) (job.jobid.take 8) true = .ok

/-- The queue of the `k`-th `jesopen()` was read and still has the job. -/
def LookFinds (w : JesWorld) (ctx : JwnCtx) (job : JesJob) (k : Nat) : Prop :=
  ∃ queue, w.readQueue k = some queue ∧
    w.Present ctx .purge queue (job.jobname.take 8) (job.jobid.take 8)

/-- The job matches the query of a list, and the caller may see it. An owner value the caller may not
ask for matches no job. -/
def JesWorld.Listed (w : JesWorld) (ctx : JwnCtx) (q : JobListQuery) (job : JesJob) : Prop :=
  w.selects (processJobListFilters q).2.1 (processJobListFilters q).1 job = true ∧
    mayList ctx job = true ∧ ∃ owner, resolveOwnerFilter ctx q.owner = some owner ∧
      shouldSkipJob job (some owner)
        (if (processJobListFilters q).2.2.isEmpty then none
          else some (processJobListFilters q).2.2) = false

/-- An outage is told: a `jesopen()` that failed makes the answer an error of the 500 class, and
an answer that there is no such job, no job at all, or no longer a job to purge comes from a queue
that was read by this request and has none. The list need not read it for an owner value that matches
no job; and it judges its jobs one by one only where RACF cuts its entities. -/
structure Told (env : ReportEnv) (w : JesWorld) (ctx : JwnCtx) (r : JobsRequest) : Prop where
  outage : (∃ k < (jobsHandler env w ctx r).2, w.jesopen k = none) →
    (jobsHandler env w ctx r).1.serverFault = true
  empty : ∀ q, r = .list q → (jobsHandler env w ctx r).1 = .jobs [] →
    ∃ queue, w.jesopen 0 = some queue ∧
      ((resolveOwnerFilter ctx q.owner).isSome → w.reads 0 = true) ∧
      (ctx.Cuts → ∀ job ∈ queue, ¬ w.Listed ctx q job)
  absent : ∀ jobname jobid op, r.reference = some (jobname, jobid, op) →
    (jobsHandler env w ctx r).1 = sendJobNotFound jobname jobid →
      ∃ queue, w.readQueue 0 = some queue ∧ ¬ w.Present ctx op queue jobname jobid
  gone : ∀ jobname jobid, r = .purge (some jobname) (some jobid) →
    ∀ f, (jobsHandler env w ctx r).1 = .feedback f → f.message = MSG_SUCCESSFUL.toList →
      ∃ job k queue, PurgeTaken w ctx jobname jobid job ∧ 1 ≤ k ∧
        k < (jobsHandler env w ctx r).2 ∧ w.readQueue k = some queue ∧
        ¬ w.Present ctx .purge queue (job.jobname.take 8) (job.jobid.take 8)

/-- The queue can be read wherever the answer depends on it: by the list once it is open, by the
lookup of the request, and after a purge by each look up to the first that no longer finds the job.
And JES2 does not say of the job the lookup has found that it knows none. -/
structure LookupsRead (w : JesWorld) (ctx : JwnCtx) (r : JobsRequest) : Prop where
  list : ∀ q, r = .list q → (w.jesopen 0).isSome → (resolveOwnerFilter ctx q.owner).isSome →
    w.reads 0 = true
  first : r.reference.isSome → (w.readQueue 0).isSome
  known : ∀ jobname jobid purge, r.cancels = some (jobname, jobid, purge) →
    ∀ job, CancelAsked w ctx jobname jobid job →
      (w.jescanj (job.jobname.take 8) (job.jobid.take 8) purge).unknown = false
  looks : ∀ jobname jobid, r = .purge (some jobname) (some jobid) →
    ∀ job, PurgeTaken w ctx jobname jobid job → ∀ k, 1 ≤ k → k ≤ PURGE_LOOKS →
      (∀ j, 1 ≤ j → j < k → LookFinds w ctx job j) → (w.readQueue k).isSome

/-! ## The looks after a purge -/

theorem lookFinds_iff (w : JesWorld) (ctx : JwnCtx) (job : JesJob) (k : Nat) :
    LookFinds w ctx job k ↔
      (findJobByNameAndId w ctx k (job.jobname.take 8) (job.jobid.take 8) .purge).job ≠ none := by
  rw [ne_eq, findJob_none, LookFinds]
  simp only [not_forall, not_not, exists_prop]

/-- All looks find the job, or the first that does not ends them. -/
theorem stillQueued_spec (w : JesWorld) (ctx : JwnCtx) (job : JesJob) (looks k : Nat) :
    (stillQueued w ctx (job.jobname.take 8) (job.jobid.take 8) looks k = (true, k + looks) ∧
      ∀ j, k ≤ j → j < k + looks → LookFinds w ctx job j) ∨
    ∃ j, k ≤ j ∧ j < k + looks ∧ (∀ i, k ≤ i → i < j → LookFinds w ctx job i) ∧
      ¬ LookFinds w ctx job j ∧
      stillQueued w ctx (job.jobname.take 8) (job.jobid.take 8) looks k = (false, j + 1) := by
  induction looks generalizing k with
  | zero =>
    left
    refine ⟨rfl, fun j hk hj => ?_⟩
    omega
  | succ looks ih =>
    rw [stillQueued]
    by_cases hfind : LookFinds w ctx job k
    · obtain ⟨a, ha⟩ := Option.ne_none_iff_exists'.mp ((lookFinds_iff w ctx job k).mp hfind)
      simp only [ha]
      rcases ih (k + 1) with ⟨heq, hall⟩ | ⟨j, hkj, hj, hbefore, hnot, heq⟩
      · left
        refine ⟨by rw [heq]; congr 1; omega, fun j hk hj => ?_⟩
        rcases Nat.eq_or_lt_of_le hk with rfl | hlt
        · exact hfind
        · exact hall j hlt (by omega)
      · right
        refine ⟨j, by omega, by omega, fun i hk hi => ?_, hnot, heq⟩
        rcases Nat.eq_or_lt_of_le hk with rfl | hlt
        · exact hfind
        · exact hbefore i hlt hi
    · right
      have hnone : (findJobByNameAndId w ctx k (job.jobname.take 8) (job.jobid.take 8)
          .purge).job = none := by
        by_contra h
        exact hfind ((lookFinds_iff w ctx job k).mpr h)
      refine ⟨k, Nat.le_refl k, by omega, fun i hk hi => ?_, hfind, ?_⟩
      · omega
      · simp only [hnone]

/-! ## One request -/

/-- Every request about one job answers alike when the lookup brings none. -/
theorem jobsHandler_lookup_none {env : ReportEnv} {w : JesWorld} {ctx : JwnCtx} {r : JobsRequest}
    {jobname jobid : Text} {op : JwnOp} (hr : r.reference = some (jobname, jobid, op))
    (hnone : (findJobByNameAndId w ctx 0 jobname jobid op).job = none) :
    jobsHandler env w ctx r = (sendJobNotFound jobname jobid, 1) := by
  unfold JobsRequest.reference at hr
  split at hr
  all_goals first | contradiction | skip
  all_goals
    simp only [Option.some.injEq, Prod.mk.injEq] at hr
    obtain ⟨rfl, rfl, rfl⟩ := hr
  · simp only [jobsHandler, jobStatusHandler, hnone]
  · simp only [jobsHandler, jobFilesHandler, hnone]
  · simp only [jobsHandler, jobRecordsHandler, hnone]
  · simp only [jobsHandler, cancelJob, hnone]
  · simp only [jobsHandler, jobCancelHandler, cancelJob, hnone]

theorem error_ne_notFound {a : Answer} (h : (a.reason == JobsAnswer.REASON_JOB_NOT_FOUND) = false)
    (jobname jobid : Text) : JobsAnswer.error a ≠ sendJobNotFound jobname jobid := by
  intro heq
  exact ne_of_beq_false h (congrArg Answer.reason (JobsAnswer.error.inj heq))

/-- A cancel of the job that was found opens JES2 no second time, unless it is a purge JES2 took. -/
theorem cancelJob_cases {w : JesWorld} {ctx : JwnCtx} (purge : Bool) {jobname jobid : Text}
    {job : JesJob} (hjob : (findJobByNameAndId w ctx 0 jobname jobid .purge).job = some job) :
    ((cancelJob w ctx purge (some jobname) (some jobid)).2 = 1 ∧
      ((cancelJob w ctx purge (some jobname) (some jobid)).1 = sendJobNotFound jobname jobid →
        CancelAsked w ctx jobname jobid job ∧
          (w.jescanj (job.jobname.take 8) (job.jobid.take 8) purge).unknown = true) ∧
      ∀ f, (cancelJob w ctx purge (some jobname) (some jobid)).1 = .feedback f → purge = false) ∨
    (purge = true ∧ PurgeTaken w ctx jobname jobid job ∧
      cancelJob w ctx purge (some jobname) (some jobid) =
        (.feedback (feedback job
          (stillQueued w ctx (job.jobname.take 8) (job.jobid.take 8) PURGE_LOOKS 1).1),
          (stillQueued w ctx (job.jobname.take 8) (job.jobid.take 8) PURGE_LOOKS 1).2)) := by
  obtain ⟨queue, hqueue, hmatch, -⟩ := (findJob_some w ctx 0 jobname jobid .purge job).mp hjob
  have hdecision := findJob_decision hjob
  simp only [cancelJob, hjob]
  by_cases hallow : (findJobByNameAndId w ctx 0 jobname jobid .purge).decision = .allow
  · have hasked : CancelAsked w ctx jobname jobid job :=
      ⟨⟨queue, hqueue, hmatch⟩, hdecision.symm.trans hallow⟩
    rw [if_neg (by simpa using hallow), cancelAnswer]
    cases hcanj : w.jescanj (job.jobname.take 8) (job.jobid.take 8) purge with
    | ok =>
      cases purge with
      | true =>
        right
        exact ⟨rfl, ⟨hasked, hcanj⟩, rfl⟩
      | false => exact Or.inl ⟨rfl, nofun, fun _ _ => rfl⟩
    | noJb => exact Or.inl ⟨rfl, fun _ => ⟨hasked, rfl⟩, nofun⟩
    | badI => exact Or.inl ⟨rfl, fun _ => ⟨hasked, rfl⟩, nofun⟩
    | syntx => exact Or.inl ⟨rfl, fun _ => ⟨hasked, rfl⟩, nofun⟩
    | iCan =>
      left
      cases purge with
      | true => exact ⟨rfl, fun h => absurd h (error_ne_notFound rfl _ _), nofun⟩
      | false => exact ⟨rfl, fun h => absurd h (error_ne_notFound rfl _ _), nofun⟩
    | outp =>
      left
      cases purge with
      | true => exact ⟨rfl, fun h => absurd h (error_ne_notFound rfl _ _), nofun⟩
      | false => exact ⟨rfl, fun h => absurd h (error_ne_notFound rfl _ _), nofun⟩
    | other rc => exact Or.inl ⟨rfl, fun h => absurd h (error_ne_notFound rfl _ _), nofun⟩
  · rw [if_pos (by simpa using hallow)]
    exact Or.inl ⟨rfl, fun h => absurd h (error_ne_notFound rfl _ _), nofun⟩

theorem CancelAsked.lookup {w : JesWorld} {ctx : JwnCtx} {jobname jobid : Text} {job : JesJob}
    (h : CancelAsked w ctx jobname jobid job) :
    (findJobByNameAndId w ctx 0 jobname jobid .purge).job = some job := by
  obtain ⟨queue, hqueue, hmatch⟩ := h.found
  apply (findJob_some w ctx 0 jobname jobid .purge job).mpr
  refine ⟨queue, hqueue, hmatch, ?_⟩
  rw [h.allowed]
  decide

/-- A purge JES2 took answers by the looks. -/
theorem cancelJob_taken {w : JesWorld} {ctx : JwnCtx} {jobname jobid : Text} {job : JesJob}
    (h : PurgeTaken w ctx jobname jobid job) :
    cancelJob w ctx true (some jobname) (some jobid) =
      (.feedback (feedback job
        (stillQueued w ctx (job.jobname.take 8) (job.jobid.take 8) PURGE_LOOKS 1).1),
        (stillQueued w ctx (job.jobname.take 8) (job.jobid.take 8) PURGE_LOOKS 1).2) := by
  have hjob := h.lookup
  have hdecision := (findJob_decision hjob).trans h.allowed
  simp only [cancelJob, hjob, hdecision, cancelAnswer, h.taken]
  rfl

/-- The output of a spool data set is never "no such job". -/
theorem doPrintSysout_ne_notFound (opened : Bool) (spool : JobSpool) (job : JesJob) (dsid : Nat)
    (jobname jobid : Text) : doPrintSysout opened spool job dsid ≠ sendJobNotFound jobname jobid := by
  unfold doPrintSysout
  split
  · exact error_ne_notFound rfl _ _
  · dsimp only
    split
    · exact nofun
    · split
      · exact nofun
      · split
        · exact error_ne_notFound rfl _ _
        · exact error_ne_notFound rfl _ _

/-- A records request opens JES2 a second time only for the output, which reports a failure. -/
theorem jobRecordsHandler_cases {w : JesWorld} {ctx : JwnCtx} {jobname jobid : Text} (ddid : Text)
    {job : JesJob} (hjob : (findJobByNameAndId w ctx 0 jobname jobid .read).job = some job) :
    (jobRecordsHandler w ctx (some jobname) (some jobid) (some ddid)).1 ≠
        sendJobNotFound jobname jobid ∧
      ((jobRecordsHandler w ctx (some jobname) (some jobid) (some ddid)).2 = 1 ∨
        ((jobRecordsHandler w ctx (some jobname) (some jobid) (some ddid)).2 = 2 ∧
          (w.jesopen 1 = none →
            (jobRecordsHandler w ctx (some jobname) (some jobid) (some ddid)).1.serverFault =
              true))) := by
  simp only [jobRecordsHandler, hjob]
  split
  · exact ⟨error_ne_notFound rfl _ _, Or.inl rfl⟩
  · split
    · exact ⟨error_ne_notFound rfl _ _, Or.inl rfl⟩
    · refine ⟨doPrintSysout_ne_notFound _ _ _ _ _ _, Or.inr ⟨rfl, fun h => ?_⟩⟩
      rw [h]
      rfl

/-- Requests without a job to look up do not open JES2, the list aside. -/
theorem jobsHandler_no_reference (env : ReportEnv) (w : JesWorld) (ctx : JwnCtx)
    {r : JobsRequest} (hr : r.reference = none) :
    (∃ q, r = .list q) ∨ (jobsHandler env w ctx r).2 = 0 := by
  match r with
  | .list q => exact Or.inl ⟨q, rfl⟩
  | .status none _ => exact Or.inr rfl
  | .status (some _) none => exact Or.inr rfl
  | .files none _ => exact Or.inr rfl
  | .files (some _) none => exact Or.inr rfl
  | .records none _ _ => exact Or.inr rfl
  | .records (some _) none _ => exact Or.inr rfl
  | .records (some _) (some _) none => exact Or.inr rfl
  | .purge none _ => exact Or.inr rfl
  | .purge (some _) none => exact Or.inr rfl
  | .cancel (.error _) _ _ => exact Or.inr rfl
  | .cancel (.ok .none) _ _ => exact Or.inr rfl
  | .cancel (.ok .hold) _ _ => exact Or.inr rfl
  | .cancel (.ok .release) _ _ => exact Or.inr rfl
  | .cancel (.ok .unknown) _ _ => exact Or.inr rfl
  | .cancel (.ok .cancel) none _ => exact Or.inr rfl
  | .cancel (.ok .cancel) (some _) none => exact Or.inr rfl

/-- **A request whose job was found.** JES2 is opened again for the output at most, and an answer
"no such job" is JES2's; or it is a purge JES2 took. -/
theorem jobsHandler_found (env : ReportEnv) {w : JesWorld} {ctx : JwnCtx} {r : JobsRequest}
    {jobname jobid : Text} {op : JwnOp} (hr : r.reference = some (jobname, jobid, op))
    {job : JesJob} (hjob : (findJobByNameAndId w ctx 0 jobname jobid op).job = some job) :
    ((jobsHandler env w ctx r).2 ≤ 2 ∧
      ((jobsHandler env w ctx r).2 = 2 → w.jesopen 1 = none →
        (jobsHandler env w ctx r).1.serverFault = true) ∧
      ((jobsHandler env w ctx r).1 = sendJobNotFound jobname jobid →
        ∃ purge, r.cancels = some (jobname, jobid, purge) ∧ CancelAsked w ctx jobname jobid job ∧
          (w.jescanj (job.jobname.take 8) (job.jobid.take 8) purge).unknown = true) ∧
      ∀ f, (jobsHandler env w ctx r).1 = .feedback f →
        r ≠ .purge (some jobname) (some jobid)) ∨
    (r = .purge (some jobname) (some jobid) ∧ PurgeTaken w ctx jobname jobid job) := by
  unfold JobsRequest.reference at hr
  split at hr
  all_goals first | contradiction | skip
  all_goals
    simp only [Option.some.injEq, Prod.mk.injEq] at hr
    obtain ⟨rfl, rfl, rfl⟩ := hr
  · left
    simp only [jobsHandler, jobStatusHandler, hjob]
    exact ⟨by decide, nofun, nofun, nofun⟩
  · left
    simp only [jobsHandler, jobFilesHandler, hjob]
    exact ⟨by decide, nofun, nofun, nofun⟩
  next n i ddid =>
    left
    obtain ⟨hne, hopens⟩ := jobRecordsHandler_cases ddid hjob
    refine ⟨?_, ?_, fun h => absurd h hne, fun _ _ => nofun⟩
    · rcases hopens with h | ⟨h, -⟩
      · simp [jobsHandler, h]
      · simp [jobsHandler, h]
    · intro h2 hnone
      rcases hopens with h | ⟨-, hfault⟩
      · simp [jobsHandler, h] at h2
      · exact hfault hnone
  · rcases cancelJob_cases true hjob with ⟨h1, hunknown, hfeedback⟩ | ⟨-, htaken, -⟩
    · left
      refine ⟨?_, ?_, fun h => ⟨true, rfl, hunknown h⟩, fun f hf => ?_⟩
      · simp [jobsHandler, h1]
      · intro h2
        simp [jobsHandler, h1] at h2
      · exact absurd (hfeedback f hf) (by decide)
    · exact Or.inr ⟨rfl, htaken⟩
  · left
    rcases cancelJob_cases false hjob with ⟨h1, hunknown, -⟩ | ⟨h, -⟩
    · refine ⟨?_, ?_, fun h => ⟨false, rfl, hunknown h⟩, fun _ _ => nofun⟩
      · simp [jobsHandler, jobCancelHandler, h1]
      · intro h2
        simp [jobsHandler, jobCancelHandler, h1] at h2
    · contradiction

/-! ## Outages -/

theorem feedback_message (job : JesJob) (pending : Bool) :
    (feedback job pending).message =
      (if pending then MSG_PURGE_PENDING else MSG_SUCCESSFUL).toList := rfl

theorem msgs_differ : MSG_PURGE_PENDING.toList ≠ MSG_SUCCESSFUL.toList := by
  decide

theorem getMaxJobs_pos (maxJobsStr : Option Text) : 0 < getMaxJobs maxJobsStr := by
  have hclamp (n : Nat) :
      0 < if n = 0 then 1 else if n > MAX_JOBS_LIMIT then MAX_JOBS_LIMIT else n := by
    split
    · exact Nat.one_pos
    · split
      · decide
      · omega
  exact hclamp _

/-- A list that comes out empty of a queue that was read has left no job out that it should show. -/
theorem listed_none {env : ReportEnv} {w : JesWorld} {ctx : JwnCtx} {q : JobListQuery}
    {queue : List JesJob} (hqueue : w.jesopen 0 = some queue)
    (hread : (resolveOwnerFilter ctx q.owner).isSome → w.reads 0 = true) (hcuts : ctx.Cuts)
    (hempty : (jobsHandler env w ctx (.list q)).1 = .jobs []) :
    ∀ job ∈ queue, ¬ w.Listed ctx q job := by
  intro job hjob hlisted
  unfold JesWorld.Listed at hlisted
  obtain ⟨hselects, hmay, owner, howner, hskip⟩ := hlisted
  simp only [jobsHandler, jobListHandler, hqueue, Option.map_some, howner, JesWorld.jesjob,
    hread (by rw [howner]; rfl), if_true, Option.getD_some] at hempty
  rw [listJobs_eq hcuts env _ _ _ 0 ctx.sound_init] at hempty
  have hnil := List.map_eq_nil_iff.mp (JobsAnswer.jobs.inj hempty)
  rcases List.take_eq_nil_iff.mp hnil with hmax | hnone
  · have := getMaxJobs_pos q.maxJobs
    omega
  · have := List.filter_eq_nil_iff.mp hnone job (List.mem_filter.mpr ⟨hjob, hselects⟩)
    exact this (by rw [hskip, hmay]; rfl)

/-- The job JES2 is asked to cancel is there to be seen. -/
theorem CancelAsked.present {w : JesWorld} {ctx : JwnCtx} {jobname jobid : Text} {job : JesJob}
    (h : CancelAsked w ctx jobname jobid job) :
    ∃ queue, w.readQueue 0 = some queue ∧ w.Present ctx .purge queue jobname jobid := by
  obtain ⟨queue, hqueue, hmatch⟩ := h.found
  refine ⟨queue, hqueue, job, hmatch, ?_⟩
  rw [h.allowed]
  decide

theorem CancelAsked.unique {w : JesWorld} {ctx : JwnCtx} {jobname jobid : Text} {job job' : JesJob}
    (h : CancelAsked w ctx jobname jobid job) (h' : CancelAsked w ctx jobname jobid job') :
    job = job' := by
  obtain ⟨queue, hqueue, hmatch⟩ := h.found
  obtain ⟨queue', hqueue', hmatch'⟩ := h'.found
  rw [hqueue] at hqueue'
  obtain rfl := Option.some.inj hqueue'
  exact List.singleton_inj.mp (hmatch.symm.trans hmatch')

/-- JES2 denies the job that was found, and the request is answered as if it had not been. -/
theorem cancelled_unknown {env : ReportEnv} {w : JesWorld} {ctx : JwnCtx} {r : JobsRequest}
    {jobname jobid : Text} {purge : Bool} (hr : r.cancels = some (jobname, jobid, purge))
    {job : JesJob} (hasked : CancelAsked w ctx jobname jobid job)
    (hunknown : (w.jescanj (job.jobname.take 8) (job.jobid.take 8) purge).unknown = true) :
    r.reference = some (jobname, jobid, .purge) ∧
      (jobsHandler env w ctx r).1 = sendJobNotFound jobname jobid := by
  have hanswer : (cancelJob w ctx purge (some jobname) (some jobid)).1 =
      sendJobNotFound jobname jobid := by
    have hjob := hasked.lookup
    have hdecision := (findJob_decision hjob).trans hasked.allowed
    simp only [cancelJob, hjob, hdecision, cancelAnswer]
    cases hcanj : w.jescanj (job.jobname.take 8) (job.jobid.take 8) purge
    all_goals
      rw [hcanj] at hunknown
      first | rfl | contradiction
  unfold JobsRequest.cancels at hr
  split at hr
  · obtain ⟨rfl, rfl, rfl⟩ := hr
    exact ⟨rfl, hanswer⟩
  · obtain ⟨rfl, rfl, rfl⟩ := hr
    exact ⟨rfl, hanswer⟩
  · contradiction

section

variable {env : ReportEnv} {w : JesWorld} {ctx : JwnCtx} {r : JobsRequest}

/-- The lookup of a request has a queue. -/
theorem LookupsRead.queue (h : LookupsRead w ctx r) {x : Text × Text × JwnOp}
    (hx : r.reference = some x) : ∃ queue, w.readQueue 0 = some queue :=
  Option.isSome_iff_exists.mp (h.first (by rw [hx]; rfl))

/-- Every look that a purge makes has one. -/
theorem LookupsRead.look {jobname jobid : Text} {job : JesJob}
    (h : LookupsRead w ctx (.purge (some jobname) (some jobid)))
    (htaken : PurgeTaken w ctx jobname jobid job) {k : Nat} (hk1 : 1 ≤ k)
    (hk : k < (stillQueued w ctx (job.jobname.take 8) (job.jobid.take 8) PURGE_LOOKS 1).2) :
    (w.readQueue k).isSome := by
  have hlook := h.looks jobname jobid rfl job htaken k hk1
  rcases stillQueued_spec w ctx job PURGE_LOOKS 1 with ⟨heq, hall⟩ | ⟨j, -, hj, hbefore, -, heq⟩
  · have hlast : k < 1 + PURGE_LOOKS := by rwa [heq] at hk
    exact hlook (by omega) fun i hi hik => hall i hi (by omega)
  · have hlast : k < j + 1 := by rwa [heq] at hk
    exact hlook (by omega) fun i hi hik => hbefore i hi (by omega)

theorem LookupsRead.outage (h : LookupsRead w ctx r)
    (houtage : ∃ k < (jobsHandler env w ctx r).2, w.jesopen k = none) :
    (jobsHandler env w ctx r).1.serverFault = true := by
  obtain ⟨k, hk, hnone⟩ := houtage
  have hclosed : w.readQueue k = none := by simp [JesWorld.readQueue, hnone]
  cases hr : r.reference with
  | none =>
    rcases jobsHandler_no_reference env w ctx hr with ⟨q, rfl⟩ | h0
    · obtain rfl : k = 0 := Nat.lt_one_iff.mp hk
      simp only [jobsHandler, hnone]
      rfl
    · omega
  | some x =>
    obtain ⟨jobname, jobid, op⟩ := x
    obtain ⟨queue, hqueue⟩ := h.queue hr
    have hk1 : 1 ≤ k := by
      by_contra hlt
      obtain rfl : k = 0 := by omega
      rw [hqueue] at hclosed
      contradiction
    cases hjob : (findJobByNameAndId w ctx 0 jobname jobid op).job with
    | none =>
      rw [jobsHandler_lookup_none hr hjob] at hk
      omega
    | some job =>
      rcases jobsHandler_found env hr hjob with ⟨hle, htold, -⟩ | ⟨rfl, htaken⟩
      · obtain rfl : k = 1 := by omega
        exact htold (by omega) hnone
      · rw [jobsHandler, cancelJob_taken htaken] at hk
        have hread := h.look htaken hk1 hk
        rw [hclosed] at hread
        cases hread

theorem LookupsRead.absent (h : LookupsRead w ctx r) {jobname jobid : Text} {op : JwnOp}
    (hr : r.reference = some (jobname, jobid, op))
    (hans : (jobsHandler env w ctx r).1 = sendJobNotFound jobname jobid) :
    ∃ queue, w.readQueue 0 = some queue ∧ ¬ w.Present ctx op queue jobname jobid := by
  obtain ⟨queue, hqueue⟩ := h.queue hr
  refine ⟨queue, hqueue, ?_⟩
  cases hjob : (findJobByNameAndId w ctx 0 jobname jobid op).job with
  | none => exact (findJob_none w ctx 0 jobname jobid op).mp hjob queue hqueue
  | some job =>
    exfalso
    rcases jobsHandler_found env hr hjob with ⟨-, -, hunknown, -⟩ | ⟨rfl, htaken⟩
    · obtain ⟨purge, hcancels, hasked, hpurge⟩ := hunknown hans
      rw [h.known jobname jobid purge hcancels job hasked] at hpurge
      contradiction
    · rw [jobsHandler, cancelJob_taken htaken] at hans
      contradiction

theorem LookupsRead.gone {jobname jobid : Text}
    (h : LookupsRead w ctx (.purge (some jobname) (some jobid))) {f : PurgeFeedback}
    (hf : (jobsHandler env w ctx (.purge (some jobname) (some jobid))).1 = .feedback f)
    (hmsg : f.message = MSG_SUCCESSFUL.toList) :
    ∃ job k queue, PurgeTaken w ctx jobname jobid job ∧ 1 ≤ k ∧
      k < (jobsHandler env w ctx (.purge (some jobname) (some jobid))).2 ∧
      w.readQueue k = some queue ∧
      ¬ w.Present ctx .purge queue (job.jobname.take 8) (job.jobid.take 8) := by
  cases hjob : (findJobByNameAndId w ctx 0 jobname jobid .purge).job with
  | none =>
    rw [jobsHandler_lookup_none rfl hjob] at hf
    contradiction
  | some job =>
    rcases jobsHandler_found env (r := .purge (some jobname) (some jobid)) rfl hjob with
      ⟨-, -, -, hno⟩ | ⟨-, htaken⟩
    · exact absurd rfl (hno f hf)
    · rw [jobsHandler, cancelJob_taken htaken] at hf ⊢
      obtain rfl := JobsAnswer.feedback.inj hf
      rcases stillQueued_spec w ctx job PURGE_LOOKS 1 with ⟨heq, -⟩ | ⟨j, hj1, -, -, hnot, heq⟩
      · rw [heq, feedback_message] at hmsg
        exact absurd hmsg msgs_differ
      · have hlast : j < (stillQueued w ctx (job.jobname.take 8) (job.jobid.take 8)
            PURGE_LOOKS 1).2 := by
          rw [heq]
          exact Nat.lt_succ_self j
        obtain ⟨queue, hqueue⟩ := Option.isSome_iff_exists.mp (h.look htaken hj1 hlast)
        exact ⟨job, j, queue, htaken, hj1, hlast, hqueue, fun hpresent =>
          hnot ⟨queue, hqueue, hpresent⟩⟩

/-- Where the queue can be read, an outage is told. -/
theorem told_of_read (h : LookupsRead w ctx r) : Told env w ctx r := by
  refine ⟨h.outage, ?_, fun _ _ _ hr hans => h.absent hr hans, ?_⟩
  · rintro q rfl hempty
    cases hopen : w.jesopen 0 with
    | none =>
      simp only [jobsHandler, hopen] at hempty
      contradiction
    | some queue =>
      have hread := h.list q rfl (by rw [hopen]; rfl)
      exact ⟨queue, rfl, hread, fun hcuts => listed_none hopen hread hcuts hempty⟩
  · rintro jobname jobid rfl f hf hmsg
    exact h.gone hf hmsg

end

/-- A purge whose look fails behind looks that found the job says the job is gone. -/
theorem gone_unread {env : ReportEnv} {w : JesWorld} {ctx : JwnCtx} {jobname jobid : Text}
    {job : JesJob} (htaken : PurgeTaken w ctx jobname jobid job) {k : Nat} (hk1 : 1 ≤ k)
    (hk : k ≤ PURGE_LOOKS) (hbefore : ∀ j, 1 ≤ j → j < k → LookFinds w ctx job j)
    (hunread : w.readQueue k = none) :
    jobsHandler env w ctx (.purge (some jobname) (some jobid)) =
      (.feedback (feedback job false), k + 1) := by
  have hnot : ¬ LookFinds w ctx job k := by
    rintro ⟨queue, hqueue, -⟩
    rw [hunread] at hqueue
    contradiction
  rw [jobsHandler, cancelJob_taken htaken]
  rcases stillQueued_spec w ctx job PURGE_LOOKS 1 with ⟨-, hall⟩ | ⟨j, hj1, -, hall, hnotj, heq⟩
  · exact absurd (hall k hk1 (by omega)) hnot
  · have hjk : j = k := by
      rcases Nat.lt_trichotomy j k with hlt | rfl | hlt
      · exact absurd (hbefore j hj1 hlt) hnotj
      · rfl
      · exact absurd (hall k hk1 hlt) hnot
    rw [heq, hjk]

/-- A JES2 that opens as often as there are queues, reads them all and takes every purge. -/
def brokenJes (queues : List (List JesJob)) : JesWorld where
  jesopen k := queues[k]?
  reads _ := true
  selects _ _ _ := true
  httpCmp := sameInAnyCase
  jescanj _ _ _ := .ok
  spool _ := ⟨1, fun _ => .rejected⟩

end Mvsmf
