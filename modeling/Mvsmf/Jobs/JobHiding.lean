import Mvsmf.Jobs.JobRequests

/-!
# Job hiding

Two runs of a request, on queues that differ in jobs the caller may not see. The lookup judges a job
only after it is found to be the only one of its name and id, so a job that is hidden and one that is
not there leave the same behind; and the list asks the policy last, of each job by itself.
-/

namespace Mvsmf

open Jcl

variable {ctx : JwnCtx}

/-! ## Two queues -/

/-- Unique ids, and the same jobs the caller may see, in the same order. -/
structure SameVisible (ctx : JwnCtx) (queue queue' : List JesJob) : Prop where
  ids : (queue.map JesJob.jobid).Nodup
  ids' : (queue'.map JesJob.jobid).Nodup
  visible : queue.filter (mayList ctx) = queue'.filter (mayList ctx)

/-- JES2 twice, apart in nothing but hidden jobs, at each time the request opens it. -/
structure SameJes (ctx : JwnCtx) (w w' : JesWorld) : Prop where
  reads : w.reads = w'.reads
  httpCmp : w.httpCmp = w'.httpCmp
  selects : w.selects = w'.selects
  jescanj : w.jescanj = w'.jescanj
  spool : w.spool = w'.spool
  opens : ∀ k, (w.jesopen k = none ∧ w'.jesopen k = none) ∨
    ∃ queue queue', w.jesopen k = some queue ∧ w'.jesopen k = some queue' ∧
      SameVisible ctx queue queue'

/-! ## The lookup -/

/-- A job that may not be listed is hidden whatever is asked for. -/
theorem hidden_of_not_mayList {job : JesJob} (h : mayList ctx job = false) (op : JwnOp) :
    (jwnCheck ctx none (job.call op)).1.decision = .hide := by
  have hlist : (jwnCheck ctx none (job.call .list)).1.decision ≠ .allow := by
    simpa [mayList] using h
  rw [ne_eq, jwnCheck_allow] at hlist
  unfold jwnCheck
  split
  next => rfl
  next hcaller =>
    have hacee : ctx.aceePresent = true ∧ ctx.user ≠ [] := by simpa using hcaller
    split
    next hmine => exact absurd ⟨hacee.1, hacee.2, Or.inl hmine⟩ hlist
    next =>
      cases he : (job.call op).entity with
      | none => rfl
      | some entity =>
        apply jwnDecide_denied
        intro auth hauth h0
        have hop (hpurge : (job.call .list).op = .purge) : auth entity true = 0 := by
          cases hpurge
        exact hlist ⟨hacee.1, hacee.2, Or.inr ⟨auth, entity, hauth, he, h0, hop⟩⟩

/-- With unique ids at most one job has the id. -/
theorem matching_unique (w : JesWorld) {queue : List JesJob}
    (hids : (queue.map JesJob.jobid).Nodup) (jobname jobid : Text) :
    w.matching queue jobname jobid = [] ∨ ∃ job, w.matching queue jobname jobid = [job] := by
  have hsub : (w.matching queue jobname jobid).Sublist queue :=
    List.filter_sublist.trans List.filter_sublist
  have hnodup : ((w.matching queue jobname jobid).map JesJob.jobid).Nodup :=
    hids.sublist (hsub.map _)
  have hid : ∀ job ∈ w.matching queue jobname jobid, job.jobid = jobid := by
    intro job hjob
    have hboth := (List.mem_filter.mp hjob).2
    simp only [Bool.and_eq_true, beq_iff_eq] at hboth
    exact hboth.2
  match hm : w.matching queue jobname jobid with
  | [] => exact Or.inl rfl
  | [job] => exact Or.inr ⟨job, rfl⟩
  | a :: b :: rest =>
    rw [hm] at hnodup hid
    simp [hid a (by simp), hid b (by simp)] at hnodup

theorem matching_visible (w : JesWorld) (queue : List JesJob) (jobname jobid : Text) :
    w.matching (queue.filter (mayList ctx)) jobname jobid =
      (w.matching queue jobname jobid).filter (mayList ctx) := by
  simp only [JesWorld.matching, JesWorld.selected, List.filter_filter]
  congr 1
  funext job
  cases mayList ctx job <;> simp

/-- **A hidden job is no job.** The lookup sees a queue through the jobs the caller may see. -/
theorem judge_visible (w : JesWorld) {queue : List JesJob}
    (hids : (queue.map JesJob.jobid).Nodup) (jobname jobid : Text) (op : JwnOp) :
    judge ctx op (onlyOne (w.matching queue jobname jobid)) =
      judge ctx op (onlyOne (w.matching (queue.filter (mayList ctx)) jobname jobid)) := by
  rw [matching_visible]
  rcases matching_unique w hids jobname jobid with hnone | ⟨job, hone⟩
  · rw [hnone]
    rfl
  · rw [hone]
    cases hv : mayList ctx job with
    | true => simp [hv]
    | false =>
      simp only [List.filter_cons, hv, Bool.false_eq_true, if_false, List.filter_nil]
      change judge ctx op (some job) = judge ctx op none
      rw [judge_some, hidden_of_not_mayList hv op]
      rfl

theorem SameJes.find {w w' : JesWorld} (h : SameJes ctx w w') (k : Nat) (jobname jobid : Text)
    (op : JwnOp) :
    findJobByNameAndId w ctx k jobname jobid op = findJobByNameAndId w' ctx k jobname jobid op := by
  rw [findJob_eq, findJob_eq, JesWorld.readQueue, JesWorld.readQueue, ← h.reads]
  cases w.reads k with
  | false => rfl
  | true =>
    simp only [if_true]
    rcases h.opens k with ⟨hnone, hnone'⟩ | ⟨queue, queue', hsome, hsome', hsame⟩
    · rw [hnone, hnone']
    · rw [hsome, hsome']
      have hmatch : ∀ q, w.matching q jobname jobid = w'.matching q jobname jobid := by
        intro q
        rw [JesWorld.matching, JesWorld.matching, JesWorld.selected, JesWorld.selected, h.selects,
          h.httpCmp]
      calc
        judge ctx op (onlyOne (w.matching queue jobname jobid))
          = judge ctx op (onlyOne (w.matching (queue.filter (mayList ctx)) jobname jobid)) :=
            judge_visible w hsame.ids jobname jobid op
        _ = judge ctx op (onlyOne (w'.matching (queue'.filter (mayList ctx)) jobname jobid)) := by
            rw [hsame.visible, hmatch]
        _ = judge ctx op (onlyOne (w'.matching queue' jobname jobid)) :=
            (judge_visible w' hsame.ids' jobname jobid op).symm

theorem SameJes.isSome {w w' : JesWorld} (h : SameJes ctx w w') (k : Nat) :
    (w.jesopen k).isSome = (w'.jesopen k).isSome := by
  rcases h.opens k with ⟨hnone, hnone'⟩ | ⟨queue, queue', hsome, hsome', -⟩
  · rw [hnone, hnone']
  · rw [hsome, hsome']
    rfl

/-! ## Requests for one job -/

theorem SameJes.stillQueued {w w' : JesWorld} (h : SameJes ctx w w') (jobname jobid : Text)
    (looks k : Nat) :
    stillQueued w ctx jobname jobid looks k = stillQueued w' ctx jobname jobid looks k := by
  induction looks generalizing k with
  | zero => rfl
  | succ looks ih =>
    rw [Mvsmf.stillQueued, Mvsmf.stillQueued, h.find, ih]

theorem SameJes.cancelJob {w w' : JesWorld} (h : SameJes ctx w w') (purge : Bool)
    (jobname jobid : Option Text) :
    cancelJob w ctx purge jobname jobid = cancelJob w' ctx purge jobname jobid := by
  match jobname, jobid with
  | some jobname, some jobid =>
    simp only [Mvsmf.cancelJob, cancelAnswer, jobStillQueued, h.find, h.jescanj, h.stillQueued]
  | none, _ => rfl
  | some _, none => rfl

/-- A request that is not for the list. -/
def JobsRequest.isList : JobsRequest → Bool
  | .list _ => true
  | _ => false

theorem SameJes.oneJob {w w' : JesWorld} (h : SameJes ctx w w') (env : ReportEnv)
    {r : JobsRequest} (hr : r.isList = false) :
    jobsHandler env w ctx r = jobsHandler env w' ctx r := by
  match r with
  | .status (some jobname) (some jobid) => simp only [jobsHandler, jobStatusHandler, h.find]
  | .status none _ => rfl
  | .status (some _) none => rfl
  | .files (some jobname) (some jobid) => simp only [jobsHandler, jobFilesHandler, h.find, h.httpCmp]
  | .files none _ => rfl
  | .files (some _) none => rfl
  | .records (some jobname) (some jobid) (some ddid) =>
    simp only [jobsHandler, jobRecordsHandler, h.find, h.isSome, h.spool]
  | .records none _ _ => rfl
  | .records (some _) none _ => rfl
  | .records (some _) (some _) none => rfl
  | .purge jobname jobid => exact h.cancelJob true jobname jobid
  | .cancel (.ok .cancel) jobname jobid => exact h.cancelJob false jobname jobid
  | .cancel (.error _) _ _ => rfl
  | .cancel (.ok .none) _ _ => rfl
  | .cancel (.ok .hold) _ _ => rfl
  | .cancel (.ok .release) _ _ => rfl
  | .cancel (.ok .unknown) _ _ => rfl

/-! ## The list -/

/-- What comes out of a list comes out of the jobs the caller may see. -/
theorem listJobs_visible (hcuts : ctx.Cuts) (env : ReportEnv) (owner status : Option Text)
    (maxJobs : Nat) (w : JesWorld) (queue : List JesJob) (filter : Text) (jesfilt : JesFilt) :
    listJobs env ctx owner status maxJobs 0 (some []) (w.selected queue filter jesfilt) =
      listJobs env ctx owner status maxJobs 0 (some [])
        (w.selected (queue.filter (mayList ctx)) filter jesfilt) := by
  rw [listJobs_eq hcuts env owner status maxJobs 0 ctx.sound_init,
    listJobs_eq hcuts env owner status maxJobs 0 ctx.sound_init]
  simp only [JesWorld.selected, List.filter_filter]
  congr 3
  funext job
  cases mayList ctx job <;> simp

theorem SameJes.list (hcuts : ctx.Cuts) {w w' : JesWorld} (h : SameJes ctx w w')
    (env : ReportEnv) (q : JobListQuery) :
    jobsHandler env w ctx (.list q) = jobsHandler env w' ctx (.list q) := by
  simp only [jobsHandler, jobListHandler]
  rcases h.opens 0 with ⟨hnone, hnone'⟩ | ⟨queue, queue', hsome, hsome', hsame⟩
  · rw [hnone, hnone']
    rfl
  · rw [hsome, hsome']
    simp only [Option.map_some]
    cases resolveOwnerFilter ctx q.owner with
    | none => rfl
    | some owner =>
      dsimp only
      rw [JesWorld.jesjob, JesWorld.jesjob, ← h.reads]
      cases w.reads 0 with
      | false => rfl
      | true =>
        simp only [if_true, Option.getD_some]
        rw [listJobs_visible hcuts env _ _ _ w queue, listJobs_visible hcuts env _ _ _ w' queue',
          hsame.visible, JesWorld.selected, JesWorld.selected, h.selects]

/-- **Hiding.** For every caller and every two queues with unique ids that differ in hidden jobs
only, every request for one job has the identical answer, whatever RACF says; and where RACF cuts
its entities, so has every list. -/
theorem jobsHandler_hides (env : ReportEnv) (ctx : JwnCtx) (w w' : JesWorld)
    (h : SameJes ctx w w') :
    (∀ r, r.isList = false → jobsHandler env w ctx r = jobsHandler env w' ctx r) ∧
    (ctx.Cuts → ∀ q, jobsHandler env w ctx (.list q) = jobsHandler env w' ctx (.list q)) :=
  ⟨fun _ hr => h.oneJob env hr, fun hcuts q => h.list hcuts env q⟩

/-- A JES2 that has the same queue each time it is opened. -/
def steadyJes (queue : List JesJob) : JesWorld where
  jesopen _ := some queue
  reads _ := true
  selects _ _ _ := true
  httpCmp := sameInAnyCase
  jescanj _ _ _ := .ok
  spool _ := ⟨1, fun _ => .rejected⟩

theorem sameJes_steady {queue queue' : List JesJob} (h : SameVisible ctx queue queue') :
    SameJes ctx (steadyJes queue) (steadyJes queue') :=
  ⟨rfl, rfl, rfl, rfl, rfl, fun _ => Or.inr ⟨queue, queue', rfl, rfl, h⟩⟩

/-- A job of another owner in front of the caller's own, RACF having a profile for the jobs of `A`
only. -/
theorem jobsHandler_hides_foreign :
    let racf : Text → Bool → Int := fun e _ => if e.take 2 = ['A', '.'] then 0 else 4
    let ctx := jobauthInit true (some ['U']) racf
    let env : ReportEnv := ⟨none, [], false, fun _ => none⟩
    let own := activeJob ['N'] ['J', '1'] ['U']
    let w := steadyJes [activeJob ['N'] ['J', '2'] ['B'], own]
    let w' := steadyJes [own]
    (∀ r, r.isList = false → jobsHandler env w ctx r = jobsHandler env w' ctx r) ∧
    ∀ q, jobsHandler env w ctx (.list q) = jobsHandler env w' ctx (.list q) := by
  intro racf ctx env own w w'
  have hsame : SameJes ctx w w' := sameJes_steady ⟨by decide, by decide, by decide⟩
  have hcuts : ctx.Cuts :=
    cuts_of_take (n := 2) (by decide) (fun p _ => if p = ['A', '.'] then 0 else 4) rfl
  exact ⟨(jobsHandler_hides env ctx w w' hsame).1, (jobsHandler_hides env ctx w w' hsame).2 hcuts⟩

/-- A RACF that looks past the eighth character: a hidden job in front of a visible one of the same
owner, whose name begins the same, takes it out of the list. -/
theorem jobsHandler_shows :
    let racf : Text → Bool → Int := fun e _ =>
      if e = "..".toList ∨ e = "A.PAYROLL1.J1".toList then 0 else 8
    let ctx := jobauthInit true (some ['U']) racf
    let env : ReportEnv := ⟨none, [], false, fun _ => none⟩
    let seen := activeJob "PAYROLL1".toList ['J', '1'] ['A']
    let w := steadyJes [activeJob "PAYROLL2".toList ['J', '2'] ['A'], seen]
    let w' := steadyJes [seen]
    SameJes ctx w w' ∧
    jobsHandler env w ctx (.list ⟨some ['*'], none, none, none, none⟩) ≠
      jobsHandler env w' ctx (.list ⟨some ['*'], none, none, none, none⟩) := by
  intro racf ctx env seen w w'
  refine ⟨sameJes_steady ⟨by decide, by decide, by decide⟩, ?_⟩
  decide

end Mvsmf
