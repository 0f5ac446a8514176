import Mvsmf.Jobs.Jwn
import Mvsmf.Common.Answer

/-!
# Jobs and what is reported of them

A job as `jesjob()` returns it, with the bits of its queue and flag bytes as the fields they are
tested as, and the JSON objects `process_job` and `process_job_files` make of it.
-/

namespace Mvsmf

open Jcl

/-! ## Jobs -/

/-- The bits of `q_type`. -/
structure JobQueues where
  xeq : Bool
  input : Bool
  xmit : Bool
  setup : Bool
  receive : Bool
  output : Bool
  hardcpy : Bool
deriving DecidableEq, Repr

/-- The bits of `jtflg`. -/
structure JobFlags where
  jf : Bool
  abd : Bool
  other : Bool
deriving DecidableEq, Repr

/-- One spool data set of a job. -/
structure JesDd where
  ddname : Text
  stepname : Text
  procstep : Text
  dsid : Nat
  recfm : UInt8
  lrecl : Nat
  records : Nat
  oclass : Option Char
  mttr : Nat
  sysin : Bool
deriving DecidableEq, Repr

structure JesJob where
  jobname : Text
  jobid : Text
  owner : Text
  sysid : Text
  queues : JobQueues
  queInit : Bool
  eclass : Char
  completion : UInt32
  jtflg : JobFlags
  startTime : UInt64
  endTime : UInt64
  dds : List JesDd
deriving DecidableEq, Repr

/-- What of the request and of the task a report shows. `isoTime` is a local time put to UTC and
spelled out. -/
structure ReportEnv where
  host : Option Text
  scheme : Text
  execData : Bool
  isoTime : UInt64 → Option Text

/-! ## Texts -/

/-- `%0*d`: digits filled up with zeros. -/
def zeroPad (width : Nat) (digits : Text) : Text :=
  List.replicate (width - digits.length) '0' ++ digits

def jobStatusStr (job : JesJob) : Text :=
  if job.queues.xeq then "ACTIVE".toList
  else if job.queues.input then "INPUT".toList
  else if job.queues.xmit then "XMIT".toList
  else if job.queues.setup then "SETUP".toList
  else if job.queues.receive then "RECEIVE".toList
  else if job.queues.output || job.queues.hardcpy then "OUTPUT".toList
  else "UNKNOWN".toList

/-- `jtflg == JESJOB_JF`, the bit alone. -/
def JobFlags.onlyJf (f : JobFlags) : Bool := f.jf && !f.abd && !f.other

def jclError : Text := "JCL ERROR".toList

/-- The return code out of the completion word; a job that is not on an output queue has none. -/
def jobRetcode (job : JesJob) : Option Text :=
  let comp := job.completion.toNat
  let abend := comp / 0x1000 % 0x1000
  let maxcc := comp % 0x1000
  if job.queues.output || job.queues.hardcpy then
    if comp / 0x1000000 = 0x77 then
      if abend ≠ 0 then
        some ("ABEND S".toList ++ zeroPad 3 ((Nat.toDigits 16 abend).map Char.toUpper))
      else if job.jtflg.abd && maxcc != 0 then
        some ("ABEND U".toList ++ zeroPad 4 (Nat.toDigits 10 maxcc))
      else if job.jtflg.onlyJf then some jclError
      else some ("CC ".toList ++ zeroPad 4 (Nat.toDigits 10 maxcc))
    else if comp = 4 || comp = 8 || comp = 36 then some jclError
    else if job.jtflg.onlyJf then some jclError
    else none
  else none

/-- A job that has not started or ended has a zero time. -/
def formatExecTime (env : ReportEnv) (t : UInt64) : Option Text :=
  if t = 0 then none else env.isoTime t

def defaultHost : Text := "127.0.0.1:8080".toList
def MAX_URL_LENGTH : Nat := 256

/-- `snprintf` into a buffer of `sz`. -/
def truncated (sz : Nat) (s : Text) : Text := s.take (sz - 1)

def jobUrl (env : ReportEnv) (jobname jobid : Text) : Text :=
  truncated MAX_URL_LENGTH (env.scheme ++ "://".toList ++ env.host.getD defaultHost ++
    "/zosmf/restjobs/jobs/".toList ++ jobname ++ '/' :: jobid)

/-! ## `process_job` -/

structure ExecData where
  system : Text
  member : Text
  started : Option Text
  ended : Option Text
deriving DecidableEq, Repr

/-- The members of a job's JSON object; `none` is null. -/
structure JobEntry where
  subsystem : Text
  jobname : Text
  jobid : Text
  owner : Text
  type : Text
  cls : Text
  url : Text
  filesUrl : Text
  status : Text
  retcode : Option Text
  exec : Option ExecData
deriving DecidableEq, Repr

/-- The object `process_job` adds for a job no filter skips. -/
def jobEntry (env : ReportEnv) (job : JesJob) : JobEntry :=
  let jobname := jwnPrintable JWN_PRTSZ job.jobname
  let jobid := jwnPrintable JWN_PRTSZ job.jobid
  let sysid := jwnPrintable JWN_PRTSZ job.sysid
  { subsystem := "JES2".toList
    jobname := jobname
    jobid := jobid
    owner := jwnPrintable JWN_PRTSZ job.owner
    type := jobid.take 3
    cls := if job.eclass.isAlphanum then [job.eclass] else jobid.take 3
    url := jobUrl env jobname jobid
    filesUrl := truncated MAX_URL_LENGTH (jobUrl env jobname jobid ++ "/files".toList)
    status := jobStatusStr job
    retcode := jobRetcode job
    exec := if env.execData then
        some ⟨sysid, sysid, formatExecTime env job.startTime, formatExecTime env job.endTime⟩
      else none }

/-! ## `process_job_files` -/

/-- The record format as letters. The letter the buffer starts with from the data set before counts
as long as nothing is written over it. -/
def getRecfmString (first : Option Char) (recfm : UInt8) : Text :=
  let type :=
    if recfm &&& 0xC0 = 0xC0 then ['U']
    else if recfm &&& 0x80 = 0x80 then ['F']
    else if recfm &&& 0x40 = 0x40 then ['V']
    else []
  let blocked := if recfm &&& 0x10 ≠ 0 then ['B'] else []
  let control := if recfm &&& 0x04 ≠ 0 then ['A'] else if recfm &&& 0x02 ≠ 0 then ['M'] else []
  let s := type ++ blocked ++ control
  if s.head?.or first = some 'V' ∧ recfm &&& 0x08 ≠ 0 then s ++ ['S'] else s

/-- The members of a spool data set's JSON object; the byte count is always null. -/
structure FileEntry where
  recfm : Text
  recordsUrl : Text
  subsystem : Text
  byteCount : Option Text
  lrecl : Nat
  jobid : Text
  ddname : Text
  id : Nat
  recordCount : Nat
  cls : Text
  jobname : Text
  stepname : Text
  procstep : Option Text
deriving DecidableEq, Repr

def fileEntry (env : ReportEnv) (job : JesJob) (recfm : Text) (dd : JesDd) : FileEntry :=
  let jobname := jwnPrintable JWN_PRTSZ job.jobname
  let jobid := jwnPrintable JWN_PRTSZ job.jobid
  { recfm := recfm
    recordsUrl := truncated MAX_URL_LENGTH (env.scheme ++ "://".toList ++
      env.host.getD defaultHost ++ "/zosmf/restjobs/jobs/".toList ++ jobname ++ '/' :: jobid ++
      "/files/".toList ++ Nat.toDigits 10 dd.dsid ++ "/records".toList)
    subsystem := "JES2".toList
    byteCount := none
    lrecl := dd.lrecl
    jobid := jobid
    ddname := jwnPrintable JWN_PRTSZ dd.ddname
    id := dd.dsid
    recordCount := dd.records
    cls := dd.oclass.toList
    jobname := jobname
    stepname := if dd.stepname.isEmpty then "JES2".toList else jwnPrintable JWN_PRTSZ dd.stepname
    procstep := if dd.procstep.isEmpty then none else some (jwnPrintable JWN_PRTSZ dd.procstep) }

/-- `httpCmp` is whether `http_cmp()` finds no difference. -/
def processDds (env : ReportEnv) (httpCmp : Text → Text → Bool) (job : JesJob)
    (first : Option Char) : List JesDd → List FileEntry
  | [] => []
  | dd :: dds =>
    if httpCmp dd.ddname "JESINTXT".toList then processDds env httpCmp job first dds
    else
      let recfm := getRecfmString first dd.recfm
      fileEntry env job recfm dd :: processDds env httpCmp job recfm.head? dds

def processJobFiles (env : ReportEnv) (httpCmp : Text → Text → Bool) (job : JesJob) :
    List FileEntry :=
  processDds env httpCmp job none job.dds

end Mvsmf
