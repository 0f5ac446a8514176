import Mvsmf.Common.ErrorReport
import Mvsmf.Jobs.JobHiding
import Mathlib

/-!
# The documents of the jobs

`process_job` and `process_job_files` put their objects into a builder and look at the return code
of the last call alone. Where storage is granted nothing is lost by that, and a client reads what the
handler answered; only a job that no list would show has a status without a document.
-/

namespace Mvsmf

open Jcl

/-! ## Members -/

section Members
variable (bytes : Text → CStr)

def ExecData.members (x : ExecData) : List Member :=
  [.str ⟨"exec-system".toList, rfl, by simp⟩ (some (bytes x.system)),
    .str ⟨"exec-member".toList, rfl, by simp⟩ (some (bytes x.member)),
    .str ⟨"exec-started".toList, rfl, by simp⟩ (x.started.map bytes),
    .str ⟨"exec-ended".toList, rfl, by simp⟩ (x.ended.map bytes)]

def JobEntry.members (e : JobEntry) : List Member :=
  [.str ⟨"subsystem".toList, rfl, by simp⟩ (some (bytes e.subsystem)),
    .str ⟨"jobname".toList, rfl, by simp⟩ (some (bytes e.jobname)),
    .str ⟨"jobid".toList, rfl, by simp⟩ (some (bytes e.jobid)),
    .str ⟨"owner".toList, rfl, by simp⟩ (some (bytes e.owner)),
    .str ⟨"type".toList, rfl, by simp⟩ (some (bytes e.type)),
    .str ⟨"class".toList, rfl, by simp⟩ (some (bytes e.cls)),
    .str ⟨"url".toList, rfl, by simp⟩ (some (bytes e.url)),
    .str ⟨"files-url".toList, rfl, by simp⟩ (some (bytes e.filesUrl)),
    .str ⟨"status".toList, rfl, by simp⟩ (some (bytes e.status)),
    .str ⟨"retcode".toList, rfl, by simp⟩ (e.retcode.map bytes)] ++
  e.exec.elim [] (ExecData.members bytes)

def FileEntry.members (e : FileEntry) : List Member :=
  [.str ⟨"recfm".toList, rfl, by simp⟩ (some (bytes e.recfm)),
    .str ⟨"records-url".toList, rfl, by simp⟩ (some (bytes e.recordsUrl)),
    .str ⟨"subsystem".toList, rfl, by simp⟩ (some (bytes e.subsystem)),
    .str ⟨"byte-count".toList, rfl, by simp⟩ (e.byteCount.map bytes),
    .num ⟨"lrecl".toList, rfl, by simp⟩ (.ofNat e.lrecl),
    .str ⟨"jobid".toList, rfl, by simp⟩ (some (bytes e.jobid)),
    .str ⟨"ddname".toList, rfl, by simp⟩ (some (bytes e.ddname)),
    .num ⟨"id".toList, rfl, by simp⟩ (.ofNat e.id),
    .num ⟨"record-count".toList, rfl, by simp⟩ (.ofNat e.recordCount),
    .str ⟨"class".toList, rfl, by simp⟩ (some (bytes e.cls)),
    .str ⟨"jobname".toList, rfl, by simp⟩ (some (bytes e.jobname)),
    .str ⟨"stepname".toList, rfl, by simp⟩ (some (bytes e.stepname)),
    .str ⟨"procstep".toList, rfl, by simp⟩ (e.procstep.map bytes)]

theorem message_named : "message".toList.all isKeyChar = true := rfl

theorem message_short : "message".toList.length < 253 := by simp

def PurgeFeedback.members (f : PurgeFeedback) : List Member :=
  [.str ⟨"jobid".toList, rfl, by simp⟩ (some (bytes f.jobid)),
    .str ⟨"message".toList, message_named, message_short⟩ (some (bytes f.message)),
    .str ⟨"original-jobid".toList, rfl, by simp⟩ (some (bytes f.originalJobid)),
    .str ⟨"jobname".toList, rfl, by simp⟩ (some (bytes f.jobname)),
    .str ⟨"owner".toList, rfl, by simp⟩ (some (bytes f.owner)),
    .num ⟨"status".toList, rfl, by simp⟩ (.ofNat f.status)]

end Members

/-! ## What is sent -/

/-- The answers that are JSON documents. -/
inductive JobsDocument
  | jobs (entries : List JobEntry)
  | job (entry : Option JobEntry)
  | files (entries : List FileEntry)
  | feedback (f : PurgeFeedback)

def JobsAnswer.document : JobsAnswer → Option JobsDocument
  | .jobs entries => some (.jobs entries)
  | .job entry => some (.job entry)
  | .files entries => some (.files entries)
  | .feedback f => some (.feedback f)
  | .error _ | .spool _ => none

section Send
variable (bytes : Text → CStr) (tbl : JsonTable) (grant grant' : Nat → Bool)

/-- The calls for an object; of their return codes the last one counts. -/
def addObject (b : JsonBuilder) (ms : List Member) : Returned :=
  endJsonObject tbl grant
    (runCalls tbl grant b (.startJsonObject :: ms.flatMap (Member.calls tbl)))

/-- Objects up to the first that fails. -/
def addObjects (b : JsonBuilder) : List (List Member) → Returned
  | [] => .ok b
  | ms :: rest => (addObject tbl grant b ms).bind fun b => addObjects b rest

/-- The report where there is no builder; it asks for one of its own. -/
def sendServerError : Option JsonReply :=
  let a := JobsAnswer.serverError
  (sendErrorResponse tbl grant' a.status (.ofNat a.category) (.ofNat a.rc) (.ofInt a.reason)
    (some (bytes a.message.toList)) []).2.reply

/-- A builder, what a handler puts into it, and the reply. -/
def sendBuilt (nobuilder : Option JsonReply) (put : JsonBuilder → Returned) : Sending JsonReply :=
  match createJsonBuilder grant with
  | none => ⟨builderAsked grant, nobuilder⟩
  | some b =>
    match put b with
    | .error b => ⟨b.asked, none⟩
    | .ok b => sendJSONResponse grant HTTP_STATUS_OK b

/-- An array of objects; whether its brackets were added is not looked at. -/
def addArray (objs : List (List Member)) (b : JsonBuilder) : Returned :=
  (addObjects tbl grant (startArray tbl grant b).builder objs).map fun b =>
    (endArray tbl grant b).builder

def sendJobsDocument : JobsDocument → Sending JsonReply
  | .jobs entries =>
    sendBuilt grant (sendServerError bytes tbl grant')
      (addArray tbl grant (entries.map (JobEntry.members bytes)))
  | .files entries =>
    sendBuilt grant (sendServerError bytes tbl grant')
      (addArray tbl grant (entries.map (FileEntry.members bytes)))
  | .job entry =>
    -- a job that is skipped adds nothing, and the builder is sent as it is
    sendBuilt grant (sendServerError bytes tbl grant') fun b =>
      entry.elim (.ok b) fun e => addObject tbl grant b (e.members bytes)
  | .feedback f =>
    sendBuilt grant none fun b => addObject tbl grant b (f.members bytes)

/-- What the document is meant to say. -/
def JobsDocument.value : JobsDocument → Option Json.Value
  | .jobs entries => some (.arr (entries.map fun e => objectValue tbl (e.members bytes)))
  | .files entries => some (.arr (entries.map fun e => objectValue tbl (e.members bytes)))
  | .job entry => entry.map fun e => objectValue tbl (e.members bytes)
  | .feedback f => some (objectValue tbl (f.members bytes))

end Send

/-! ## Nothing is lost -/

section Puts
variable (tbl : JsonTable) (grant : Nat → Bool)

theorem buildCalls_append (b : JsonBuilder) (xs ys : List JsonCall) :
    buildCalls tbl grant b (xs ++ ys) =
      (buildCalls tbl grant b xs).bind fun b => buildCalls tbl grant b ys := by
  induction xs generalizing b with
  | nil => rfl
  | cons call xs ih =>
    rw [List.cons_append, buildCalls, buildCalls]
    cases call.exec tbl grant b with
    | error b₁ => rfl
    | ok b₁ => exact ih b₁

/-- Where all it asked for was granted, `put` has made the calls and none failed. -/
structure Puts (calls : List JsonCall) (put : JsonBuilder → Returned) : Prop where
  sound : ∀ {b}, b.Sound → (put b).builder.Sound
  asked : ∀ {b}, b.Sound → b.asked ≤ (put b).builder.asked
  done : ∀ {b}, b.Sound → Granted grant b (put b).builder →
    ∃ b', put b = .ok b' ∧ buildCalls tbl grant b calls = some b'

variable {tbl grant}

theorem Puts.nil : Puts tbl grant [] .ok := ⟨id, fun _ => Nat.le_refl _, fun _ _ => ⟨_, rfl, rfl⟩⟩

theorem puts_exec (call : JsonCall) : Puts tbl grant [call] (call.exec tbl grant) where
  sound hb := exec_sound tbl grant hb call
  asked {b} hb := by
    have happ := exec_appended tbl grant hb call
    cases hr : call.exec tbl grant b with
    | error b' =>
      rw [hr] at happ
      exact happ.2.1
    | ok b' =>
      rw [hr] at happ
      exact happ.2.2.2.1
  done {b} hb hg := by
    have happ := exec_appended tbl grant hb call
    rw [buildCalls]
    cases hr : call.exec tbl grant b with
    | error b' =>
      rw [hr] at happ hg
      exact absurd hg happ.2.2
    | ok b' => exact ⟨b', rfl, rfl⟩

/-- The return code is not looked at. -/
theorem Puts.ignored {calls : List JsonCall} {put : JsonBuilder → Returned}
    (h : Puts tbl grant calls put) : Puts tbl grant calls fun b => .ok (put b).builder where
  sound := h.sound
  asked := h.asked
  done hb hg := by
    obtain ⟨b', hput, hbuild⟩ := h.done hb hg
    rw [hput]
    exact ⟨b', rfl, hbuild⟩

theorem Puts.bind {calls calls' : List JsonCall} {put put' : JsonBuilder → Returned}
    (h : Puts tbl grant calls put) (h' : Puts tbl grant calls' put') :
    Puts tbl grant (calls ++ calls') fun b => (put b).bind put' where
  sound {b} hb := by
    have hsound := h.sound hb
    cases hr : put b with
    | error b₁ =>
      rw [hr] at hsound
      exact hsound
    | ok b₁ =>
      rw [hr] at hsound
      exact h'.sound hsound
  asked {b} hb := by
    have hsound := h.sound hb
    have hasked := h.asked hb
    cases hr : put b with
    | error b₁ =>
      rw [hr] at hasked
      exact hasked
    | ok b₁ =>
      rw [hr] at hsound hasked
      exact hasked.trans (h'.asked hsound)
  done {b} hb hg := by
    have hsound := h.sound hb
    have hasked := h.asked hb
    have hdone := h.done hb
    cases hr : put b with
    | error b₁ =>
      rw [hr] at hdone hg
      obtain ⟨b', hput, -⟩ := hdone hg
      cases hput
    | ok b₁ =>
      rw [hr] at hsound hasked hdone hg
      have hasked' : b₁.asked ≤ (put' b₁).builder.asked := h'.asked hsound
      obtain ⟨b', hput, hbuild⟩ := hdone fun i hi hlt => hg i hi (hlt.trans_le hasked')
      cases hput
      obtain ⟨b'', hput', hbuild'⟩ := h'.done hsound fun i hi hlt => hg i (hasked.trans hi) hlt
      refine ⟨b'', hput', ?_⟩
      rw [buildCalls_append, hbuild, Option.bind_some]
      exact hbuild'

theorem puts_runCalls (calls : List JsonCall) :
    Puts tbl grant calls fun b => .ok (runCalls tbl grant b calls) := by
  induction calls with
  | nil => exact .nil
  | cons call calls ih => exact (puts_exec call).ignored.bind ih

theorem puts_addObject (ms : List Member) :
    Puts tbl grant (objectCalls tbl ms) fun b => addObject tbl grant b ms :=
  (puts_runCalls (.startJsonObject :: ms.flatMap (Member.calls tbl))).bind (puts_exec .endJsonObject)

theorem puts_addObjects (objs : List (List Member)) :
    Puts tbl grant (objs.flatMap (objectCalls tbl)) fun b => addObjects tbl grant b objs := by
  induction objs with
  | nil => exact .nil
  | cons ms objs ih => exact (puts_addObject ms).bind ih

/-- The calls of an array of objects. -/
def arrayCalls (tbl : JsonTable) (objs : List (List Member)) : List JsonCall :=
  .startArray :: (objs.flatMap (objectCalls tbl) ++ [.endArray])

theorem puts_addArray (objs : List (List Member)) :
    Puts tbl grant (arrayCalls tbl objs) (addArray tbl grant objs) := by
  have hall := (@puts_exec tbl grant .startArray).ignored.bind
    ((puts_addObjects objs).bind (@puts_exec tbl grant .endArray).ignored)
  have hsame : addArray tbl grant objs = fun b =>
      (Except.ok (JsonCall.startArray.exec tbl grant b).builder : Returned).bind fun b =>
        (addObjects tbl grant b objs).bind fun b =>
          .ok (JsonCall.endArray.exec tbl grant b).builder := by
    funext b
    rw [addArray]
    change Except.map _ _ = Except.bind (addObjects tbl grant (startArray tbl grant b).builder objs) _
    cases addObjects tbl grant (startArray tbl grant b).builder objs <;> rfl
  rw [hsame]
  exact hall

/-- What a handler puts into the builder is sent as the document of the calls. -/
theorem puts_sendBuilt {calls : List JsonCall} {put : JsonBuilder → Returned}
    (h : Puts tbl grant calls put) (nobuilder : Option JsonReply)
    (hg : ∀ i < (sendBuilt grant nobuilder put).asked, grant i = true) :
    sendBuilt grant nobuilder put = sendDocument tbl grant HTTP_STATUS_OK calls := by
  cases hb : createJsonBuilder grant with
  | none =>
    have hsend : sendBuilt grant nobuilder put = ⟨builderAsked grant, nobuilder⟩ := by
      rw [sendBuilt, hb]
    rw [hsend] at hg
    obtain ⟨i, hi, hno⟩ := createJsonBuilder_refused grant hb
    exact absurd (hno.symm.trans (hg i hi)) Bool.false_ne_true
  | some b =>
    obtain ⟨hsound, -⟩ := createJsonBuilder_sound grant hb
    have hdone := h.done hsound
    cases hput : put b with
    | error b' =>
      have hsend : sendBuilt grant nobuilder put = ⟨b'.asked, none⟩ := by
        rw [sendBuilt, hb]
        dsimp only
        rw [hput]
      rw [hsend] at hg
      rw [hput] at hdone
      obtain ⟨b'', hok, -⟩ := hdone fun i _ hlt => hg i hlt
      cases hok
    | ok b' =>
      have hsend : sendBuilt grant nobuilder put = sendJSONResponse grant HTTP_STATUS_OK b' := by
        rw [sendBuilt, hb]
        dsimp only
        rw [hput]
      rw [hsend] at hg
      rw [hput] at hdone
      obtain ⟨b'', hok, hbuild⟩ := hdone fun i _ hlt => hg i (hlt.trans (Nat.lt_succ_self _))
      cases hok
      rw [hsend, sendDocument, hb]
      dsimp only
      rw [(addCalls_ok_iff tbl grant).mpr hbuild]

end Puts

/-! ## What is read -/

section Read
variable (tbl : JsonTable)

theorem describeAll_objects (objs : List (List Member)) (vs : List Json.Value)
    (st : List Json.Frame) :
    describeAll tbl (.arr vs :: st) (objs.flatMap (objectCalls tbl)) =
      some (.arr (vs ++ objs.map (objectValue tbl)) :: st) := by
  induction objs generalizing vs with
  | nil => rw [List.flatMap_nil, List.map_nil, List.append_nil, describeAll]
  | cons ms objs ih =>
    have hobject : describeAll tbl (.arr vs :: st) (objectCalls tbl ms) =
        some (.arr (vs ++ [objectValue tbl ms]) :: st) :=
      @describeAll_object tbl ms (.arr vs :: st) (.arr vs :: st) rfl
    rw [List.flatMap_cons, describeAll_append, hobject, Option.bind_some, ih, List.map_cons,
      List.append_assoc, List.singleton_append]

theorem describes_array (objs : List (List Member)) :
    DescribesTree tbl (arrayCalls tbl objs) (.arr (objs.map (objectValue tbl))) := by
  rw [DescribesTree, arrayCalls, describeAll, describe, Option.bind_some, describeAll_append,
    describeAll_objects, List.nil_append]
  rfl

theorem array_ok (objs : List (List Member)) :
    ∀ call ∈ arrayCalls tbl objs, CallOk tbl call := by
  intro call hcall
  rcases List.mem_cons.mp hcall with rfl | hcall
  · exact ⟨trivial, trivial⟩
  · rcases List.mem_append.mp hcall with hcall | hcall
    · obtain ⟨ms, -, hcall⟩ := List.mem_flatMap.mp hcall
      exact object_ok tbl ms call hcall
    · rw [List.mem_singleton.mp hcall]
      exact ⟨trivial, trivial⟩

theorem sendArray_replied (grant : Nat → Bool) (status : Nat) (objs : List (List Member)) :
    Replied tbl grant status (.arr (objs.map (objectValue tbl)))
      (sendDocument tbl grant status (arrayCalls tbl objs)) :=
  sendDocument_replied tbl grant (describes_array tbl objs)
    (fun call hcall => (array_ok tbl objs call hcall).1)
    fun call hcall => (array_ok tbl objs call hcall).2

/-- The client has a 200 with a body of the announced length that is read as the value, or a 200 with
nothing behind it. -/
def JsonReceived : Option Json.Value → Option JsonReply → Prop
  | some v, reply => ∃ r, reply = some r ∧ r.status = 200 ∧
    r.contentLength = some (tbl.sent r.body).length ∧ Json.parse (tbl.sent r.body) = some v
  | none, reply => reply = some ⟨200, none, []⟩

theorem Replied.received {grant : Nat → Bool} {v : Json.Value} {sending : Sending JsonReply}
    (hg : ∀ i < sending.asked, grant i = true) (h : Replied tbl grant 200 v sending) :
    JsonReceived tbl (some v) sending.reply := by
  cases hr : sending.reply with
  | none =>
    obtain ⟨i, hi, hno⟩ := h.withheld hr
    exact absurd (hno.symm.trans (hg i hi)) Bool.false_ne_true
  | some r => exact ⟨r, rfl, h.sent r hr⟩

theorem received_granted (bytes : Text → CStr) {grant : Nat → Bool} (grant' : Nat → Bool)
    (d : JobsDocument)
    (hg : ∀ i < (sendJobsDocument bytes tbl grant grant' d).asked, grant i = true) :
    JsonReceived tbl (d.value bytes tbl) (sendJobsDocument bytes tbl grant grant' d).reply := by
  have hobject : ∀ nobuilder ms,
      let sending := sendBuilt grant nobuilder fun b => addObject tbl grant b ms
      (∀ i < sending.asked, grant i = true) →
        JsonReceived tbl (some (objectValue tbl ms)) sending.reply := by
    intro nobuilder ms sending hg
    have hsend : sending = sendDocument tbl grant 200 (objectCalls tbl ms) :=
      puts_sendBuilt (puts_addObject ms) nobuilder hg
    rw [hsend] at hg ⊢
    exact (sendObject_replied tbl grant 200 ms).received tbl hg
  have harray : ∀ nobuilder objs,
      let sending := sendBuilt grant nobuilder (addArray tbl grant objs)
      (∀ i < sending.asked, grant i = true) →
        JsonReceived tbl (some (.arr (objs.map (objectValue tbl)))) sending.reply := by
    intro nobuilder objs sending hg
    have hsend : sending = sendDocument tbl grant 200 (arrayCalls tbl objs) :=
      puts_sendBuilt (puts_addArray objs) nobuilder hg
    rw [hsend] at hg ⊢
    exact (sendArray_replied tbl grant 200 objs).received tbl hg
  cases d with
  | jobs entries =>
    have h := harray (sendServerError bytes tbl grant') (entries.map (JobEntry.members bytes)) hg
    rw [List.map_map] at h
    exact h
  | files entries =>
    have h := harray (sendServerError bytes tbl grant') (entries.map (FileEntry.members bytes)) hg
    rw [List.map_map] at h
    exact h
  | feedback f => exact hobject none (f.members bytes) hg
  | job entry =>
    cases entry with
    | some e => exact hobject (sendServerError bytes tbl grant') (e.members bytes) hg
    | none =>
      -- the builder is sent as it was made
      have hsend : sendBuilt grant (sendServerError bytes tbl grant') .ok =
          sendDocument tbl grant 200 [] := puts_sendBuilt .nil _ hg
      have hg' : ∀ i < (sendBuilt grant (sendServerError bytes tbl grant') .ok).asked,
        grant i = true := hg
      change (sendBuilt grant (sendServerError bytes tbl grant') .ok).reply = _
      rw [hsend] at hg' ⊢
      cases hb : createJsonBuilder grant with
      | none =>
        rw [sendDocument, hb] at hg'
        obtain ⟨i, hi, hno⟩ := createJsonBuilder_refused grant hb
        exact absurd (hno.symm.trans (hg' i hi)) Bool.false_ne_true
      | some b =>
        obtain ⟨-, rfl⟩ := createJsonBuilder_sound grant hb
        rw [sendDocument, hb] at hg' ⊢
        exact if_pos (hg' 2 (Nat.lt_succ_self _))

end Read

/-! ## Which answers have no document -/

/-- A job is reported to one who was cleared for it, unless it is the system's. -/
theorem processJob_cleared (env : ReportEnv) (job : JesJob) :
    (processJob env none none none none job).1 = none ↔ isSystem job = true := by
  have hskip : shouldSkipJob job none none = isSystem job := by
    simp only [shouldSkipJob, isSystem, Bool.false_or, Bool.or_false]
  rw [processJob, hskip]
  cases isSystem job with
  | true => exact ⟨fun _ => rfl, fun _ => rfl⟩
  | false => exact iff_of_false (Option.some_ne_none _) Bool.false_ne_true

theorem jobListHandler_ne_job (env : ReportEnv) (ctx : JwnCtx) (q : JobListQuery)
    (jesopen : Option (Text → JesFilt → List JesJob)) (entry : Option JobEntry) :
    jobListHandler env ctx q jesopen ≠ .job entry := by
  intro h
  rw [jobListHandler] at h
  dsimp only at h
  split at h
  · cases h
  · split at h
    · cases h
    · cases h

theorem jobRecordsHandler_ne_job (w : JesWorld) (ctx : JwnCtx) (jobname jobid ddid : Option Text)
    (entry : Option JobEntry) : (jobRecordsHandler w ctx jobname jobid ddid).1 ≠ .job entry := by
  have hprint : ∀ opened spool job dsid, doPrintSysout opened spool job dsid ≠ .job entry := by
    intro opened spool job dsid h
    rw [doPrintSysout] at h
    split at h
    · cases h
    · dsimp only at h
      split at h
      · cases h
      · split at h
        · cases h
        · split at h
          · cases h
          · cases h
  intro h
  unfold jobRecordsHandler at h
  split at h
  · split at h
    · cases h
    · dsimp only at h
      split at h
      · cases h
      · split at h
        · cases h
        · exact hprint _ _ _ _ h
  · cases h

theorem cancelJob_ne_job (w : JesWorld) (ctx : JwnCtx) (purge : Bool)
    (jobname jobid : Option Text) (entry : Option JobEntry) :
    (cancelJob w ctx purge jobname jobid).1 ≠ .job entry := by
  have hanswer : ∀ jobname jobid job,
      (cancelAnswer w ctx purge jobname jobid job).1 ≠ .job entry := by
    intro jobname jobid job h
    rw [cancelAnswer] at h
    dsimp only at h
    cases hrc : w.jescanj (job.jobname.take 8) (job.jobid.take 8) purge
    all_goals
      rw [hrc] at h
      cases purge <;> cases h
  intro h
  unfold cancelJob at h
  split at h
  · dsimp only at h
    split at h
    · cases h
    · split at h
      · cases h
      · exact hanswer _ _ _ h
  · cases h

/-- Only the status of a job answers with one job. -/
theorem jobsHandler_job_iff (env : ReportEnv) (w : JesWorld) (ctx : JwnCtx) (r : JobsRequest)
    (entry : Option JobEntry) :
    (jobsHandler env w ctx r).1 = .job entry ↔
      ∃ jobname jobid job, r = .status (some jobname) (some jobid) ∧
        (findJobByNameAndId w ctx 0 jobname jobid .read).job = some job ∧
        (processJob env none none none none job).1 = entry := by
  constructor
  · intro h
    cases r with
    | list q => exact absurd h (jobListHandler_ne_job _ _ _ _ _)
    | records jobname jobid ddid => exact absurd h (jobRecordsHandler_ne_job _ _ _ _ _ _)
    | purge jobname jobid => exact absurd h (cancelJob_ne_job _ _ _ _ _ _)
    | files jobname jobid =>
      simp only [jobsHandler, jobFilesHandler] at h
      split at h
      · split at h
        · cases h
        · cases h
      · cases h
    | cancel body jobname jobid =>
      cases body with
      | error a => cases h
      | ok update =>
        cases update with
        | cancel => exact absurd h (cancelJob_ne_job _ _ _ _ _ _)
        | none => cases h
        | hold => cases h
        | release => cases h
        | unknown => cases h
    | status jobname jobid =>
      simp only [jobsHandler, jobStatusHandler] at h
      split at h
      · split at h
        · cases h
        · next jobname jobid _ job hjob =>
          exact ⟨jobname, jobid, job, rfl, hjob, JobsAnswer.job.inj h⟩
      · cases h
  · rintro ⟨jobname, jobid, job, rfl, hjob, hentry⟩
    simp only [jobsHandler, jobStatusHandler, hjob, hentry]

theorem value_eq_none_iff (bytes : Text → CStr) (tbl : JsonTable) {a : JobsAnswer}
    {d : JobsDocument} (hd : a.document = some d) : d.value bytes tbl = none ↔ a = .job none := by
  cases a with
  | error a => cases hd
  | spool output => cases hd
  | jobs entries =>
    obtain rfl := Option.some.inj hd
    exact iff_of_false (Option.some_ne_none _) fun h => by cases h
  | files entries =>
    obtain rfl := Option.some.inj hd
    exact iff_of_false (Option.some_ne_none _) fun h => by cases h
  | feedback f =>
    obtain rfl := Option.some.inj hd
    exact iff_of_false (Option.some_ne_none _) fun h => by cases h
  | job entry =>
    obtain rfl := Option.some.inj hd
    rw [JobsDocument.value, Option.map_eq_none_iff, JobsAnswer.job.injEq]

/-- **Documents of the jobs.** Whatever the jobs, the caller and the request, and whatever bytes the
texts have: unless a request for storage that is made for it is refused, the client of an answer that
is a document receives it whole. The body is empty if and only if it is the status of one job that was
found, and that is the system log, `INIT` or a job of the initiator. -/
theorem jobsDocument_received (bytes : Text → CStr) (tbl : JsonTable) (grant grant' : Nat → Bool)
    (env : ReportEnv) (w : JesWorld) (ctx : JwnCtx) (r : JobsRequest) :
    ∀ d ∈ (jobsHandler env w ctx r).1.document,
      let sending := sendJobsDocument bytes tbl grant grant' d
      ((∃ i < sending.asked, grant i = false) ∨
        JsonReceived tbl (d.value bytes tbl) sending.reply) ∧
      (d.value bytes tbl = none ↔ ∃ jobname jobid job, r = .status (some jobname) (some jobid) ∧
        (findJobByNameAndId w ctx 0 jobname jobid .read).job = some job ∧
        isSystem job = true) := by
  intro d hd sending
  refine ⟨?_, ?_⟩
  · by_cases hg : ∃ i < sending.asked, grant i = false
    · exact .inl hg
    · have hall : ∀ i < sending.asked, grant i = true := fun i hi =>
        Bool.of_not_eq_false fun hno => hg ⟨i, hi, hno⟩
      exact .inr (received_granted tbl bytes grant' d hall)
  · rw [value_eq_none_iff bytes tbl hd, jobsHandler_job_iff]
    simp only [processJob_cleared]

/-- The bytes of a text in code page 037, up to a NUL. -/
def cp037Text (s : Text) : CStr :=
  ⟨(JsonTable.cp037.lit s).takeWhile (· ≠ 0), fun h => by simpa using List.mem_takeWhile_imp h⟩

/-- One who may read the system log asks for its status, and gets nothing to read. -/
theorem jobsDocument_received_syslog :
    let ctx := jobauthInit true (some ['U']) fun _ _ => 4
    let env : ReportEnv := ⟨none, [], false, fun _ => none⟩
    let w := steadyJes [activeJob SYSLOG "STC00001".toList ['U']]
    (jobsHandler env w ctx (.status (some SYSLOG) (some "STC00001".toList))).1 = .job none ∧
      JsonReceived JsonTable.cp037 none (sendJobsDocument cp037Text JsonTable.cp037 (fun _ => true)
        (fun _ => true) (.job none)).reply := by
  intro ctx env w
  have hanswer : (jobsHandler env w ctx (.status (some SYSLOG) (some "STC00001".toList))).1 =
      .job none := by
    decide
  have hdocument := congrArg JobsAnswer.document hanswer
  obtain ⟨hreceived, -⟩ := jobsDocument_received cp037Text JsonTable.cp037 (fun _ => true)
    (fun _ => true) env w ctx _ _ hdocument
  rcases hreceived with ⟨i, -, hi⟩ | hreceived
  · cases hi
  · exact ⟨hanswer, hreceived⟩

end Mvsmf
