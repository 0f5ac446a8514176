import Mvsmf.Common.ReqBody
import Mvsmf.Console.Capture
import Mvsmf.Console.IssueRequest
import Mvsmf.Console.Records
import Mvsmf.Lib.Monitor
import Mvsmf.Lib.Prog
import Mathlib

/-!
# The issue of a command

`consoleIssueHandler` from the check of the caller to its end. The lock is held from in front of
SVC 34 to behind the capture; what is done before the command is issued and what behind it decides
the reason code, which tells the client whether to try again. An error of the capture's preparation
is answered before the lock is released at `quit`.
-/

namespace Mvsmf

/-! ## Requests and replies -/

/-- `anchor` is whether there is a context to ENQ on. -/
structure ConsRequest where
  consoleName : Option (List Char)
  contentType : Option (List Char)
  host : Option (List Char)
  scheme : List Char
  anchor : Bool

/-- What a reply says of the detection. -/
inductive DetectReply
  | sync (status : String) (msg : List Char)
  | async (key url uri : List Char)

/-- The members of a 200. -/
structure IssueReply where
  cmdResponse : Option (List Char)
  key : List Char
  url : List Char
  uri : List Char
  solKeyDetected : Option Bool
  detection : Option DetectReply

/-- `refused` is answered by `console_authorize`. -/
inductive ConsReply
  | refused
  | error (e : ConsoleError)
  | issued (r : IssueReply)

/-! ## The calls of the handler -/

inductive ConsCall
  | consoleAuthorize
  | readRequestContent
  | serverQuiescing
  | trylock
  | consPollNap
  | unlock
  | issueCommand (text : List Char)
  | mttSnap
  | tod64
  | todHi
  | malloc (size : Nat)
  | capturePolls (cmdUpper : List Char)
  | kvstore
  | ntSet (name : NtName) (val : List UInt8)
  | reply (r : ConsReply)

/-- A capture is answered with its turns. -/
def ConsCall.Ans : ConsCall → Type
  | .consoleAuthorize | .serverQuiescing | .trylock | .malloc _ | .kvstore => Bool
  | .readRequestContent => Except BodyRc (List Char)
  | .mttSnap => Option (List MtEntry)
  | .tod64 => UInt64
  | .todHi => UInt32
  | .capturePolls _ => List CapturePoll
  | _ => Unit

abbrev ConsProg := Prog ConsCall ConsCall.Ans

abbrev ConsEvent := Prog.Event ConsCall ConsCall.Ans

def cons (c : ConsCall) : ConsProg c.Ans := Prog.ask c

namespace ConsProg

def wrongContentType : ConsoleError :=
  ⟨400, 1, 6, "The Content-Type cannot be handled, 'application/json' is expected."⟩

def wrongConsoleName : ConsoleError :=
  ⟨400, 1, 14, "Incorrect console name. The length must be greater than 1 and less than 9."⟩

/-- The checks in front of the body. -/
def headerError (req : ConsRequest) : Option ConsoleError :=
  if (req.contentType.all fun ct => !CLib.strstr "application/json".toList ct) then
    some wrongContentType
  else
    let cnlen := (req.consoleName.getD []).length
    if cnlen < 2 ∨ 8 < cnlen then some wrongConsoleName else none

def bodyError : BodyRc → ConsoleError
  | .nomem => ⟨500, 8, 1, "Storage for the request body could not be obtained."⟩
  | .tooLarge => ⟨413, 1, 12, "The request body is too large."⟩
  | _ => ⟨400, 1, 12, "The body of the request is not in JSON format."⟩

def quiescing : ConsoleError :=
  ⟨503, 8, 17, "Server is quiescing; the command was NOT issued. Retry later."⟩

def busy : ConsoleError :=
  ⟨429, 8, 16, "Another console command is in progress. Retry the request."⟩

def notArmed : ConsoleError :=
  ⟨500, 8, 14, "Command was issued; the Master Trace Table could not be " ++
    "copied, so unsolicited-message detection was not armed. Do " ++
    "not blindly retry -- retry re-issues the command."⟩

def noResponse : ConsoleError := ⟨500, 8, 14, "Cannot get the command response."⟩

def notRead : ConsoleError :=
  ⟨500, 8, 14, "Command was issued; the Master Trace Table could not be " ++
    "copied, so the response could not be read. Do not blindly " ++
    "retry -- retry re-issues the command."⟩

def captureAbandoned : ConsoleError :=
  ⟨503, 8, 15, "Command was issued; response capture abandoned (server " ++
    "quiescing). Do not blindly retry -- retry re-issues the command."⟩

def detectAbandoned : ConsoleError :=
  ⟨503, 8, 15, "Command was issued; unsolicited-message detection " ++
    "abandoned (server quiescing). Do not blindly retry -- " ++
    "retry re-issues the command."⟩

def notDetected : ConsoleError :=
  ⟨500, 8, 14, "Command was issued; the Master Trace Table could " ++
    "not be copied, so unsolicited-message detection " ++
    "could not finish. Do not blindly retry -- retry " ++ "re-issues the command."⟩

/-! ## The lock -/

def CONS_LOCK_TRIES : Nat := 50

/-- `granted` says whether the session holds the lock. -/
inductive LockRc
  | granted (locked : Bool)
  | quiesced
  | busy

def lockTries : Nat → ConsProg LockRc
  | 0 => return .busy
  | n + 1 => do
    let taken : Bool ← cons .trylock
    if taken then return .granted true
    else
      let quiescing : Bool ← cons .serverQuiescing
      if quiescing then return .quiesced
      else
        cons .consPollNap
        lockTries n

def consoleLockAcquire (anchor : Bool) : ConsProg LockRc :=
  if anchor then lockTries CONS_LOCK_TRIES else return .granted false

def consoleLockRelease (locked : Bool) : ConsProg Unit :=
  if locked then cons .unlock else return ()

/-- A reply, and the label `quit` behind it: the lock is released if it is still held. -/
def sendQuit (locked : Bool) (reply : ConsReply) : ConsProg (Option ConsReply) := do
  cons (.reply reply)
  consoleLockRelease locked
  return some reply

/-! ## Behind the command -/

/-- `none` where there is nothing to detect, and an error where the table could not be read. -/
def armDetection (f : IssueFields) : ConsProg (Except ConsoleError (Option MttAnchor)) := do
  if f.unsolkey = [] then return .ok none
  else
    let snap ← cons .mttSnap
    match mttDetectAnchor snap (f.unsolkey.map Char.toUpper) with
    | some base => return .ok (some base)
    | none => return .error notArmed

def consoleUri (req : ConsRequest) (what key : List Char) : List Char :=
  "/zosmf/restconsoles/consoles/".toList ++ req.consoleName.getD [] ++ what ++ key

def consoleUrl (req : ConsRequest) (uri : List Char) : List Char :=
  (req.scheme ++ "://".toList ++ req.host.getD "localhost".toList ++ uri).take 255

def DET_MSG_SIZE : Nat := 200

/-- The wait for an unsolicited message, for as many polls at most; `none` if it goes on then. -/
def detectLoop (unsolUpper : List Char) (base : MttAnchor) (timeout : Nat) (start : UInt32) :
    Nat → ConsProg (Option (Except ConsoleError DetectReply))
  | 0 => return none
  | polls + 1 => do
    let quiescing : Bool ← cons .serverQuiescing
    if quiescing then return some (.error detectAbandoned)
    else
      let snap ← cons .mttSnap
      let since := mttDetectSince snap unsolUpper base DET_MSG_SIZE
      if since.1.getD 0 > 0 then return some (.ok (.sync "detected" since.2))
      else
        let now : UInt32 ← cons .todHi
        if (now - start).toNat ≥ timeout then
          if since.1.isNone then return some (.error notDetected)
          else return some (.ok (.sync "timeout" []))
        else
          cons .consPollNap
          detectLoop unsolUpper base timeout start polls

/-- The asynchronous detection, which is stored for later polls. -/
def storeDetection (req : ConsRequest) (f : IssueFields) (base : MttAnchor) (tod : UInt64) :
    ConsProg DetectReply := do
  let dkey := detectionKey tod
  let store : Bool ← cons .kvstore
  if store then
    let now : UInt32 ← cons .todHi
    cons (.ntSet (detectionName tod) (detectionBytes
      ⟨now, UInt32.ofNat f.detectSecs, base, f.unsolkey.map Char.toUpper⟩))
  let duri := consoleUri req "/detections/".toList dkey
  return .async dkey (consoleUrl req duri) duri

/-- The detection that was asked for. -/
def detect (req : ConsRequest) (f : IssueFields) (base : Option MttAnchor) (tod : UInt64)
    (polls : Nat) : ConsProg (Option (Except ConsoleError (Option DetectReply))) := do
  match base with
  | none => return some (.ok none)
  | some base =>
    if f.unsolSync then
      let start : UInt32 ← cons .todHi
      let found ← detectLoop (f.unsolkey.map Char.toUpper) base f.timeout start polls
      return found.map fun r => r.map some
    else
      let stored ← storeDetection req f base tod
      return some (.ok (some stored))

def storeCursor (f : IssueFields) (tod : UInt64) (cur : SolCursor) : ConsProg Unit := do
  let store : Bool ← cons .kvstore
  if store then
    cons (.ntSet (responseName tod) (cursorBytes tod (UInt8.ofNat f.cmd.length) cur))

/-- The cursor, the detection and the members of the reply. -/
def answerIssued (req : ConsRequest) (f : IssueFields) (base : Option MttAnchor) (tod : UInt64)
    (resp : List Char) (cur : SolCursor) (polls : Nat) : ConsProg (Option ConsReply) := do
  let key := responseKey tod
  storeCursor f tod cur
  match ← detect req f base tod polls with
  | none => return none
  | some (.error e) => sendQuit false (.error e)
  | some (.ok detection) =>
    let uri := consoleUri req "/solmsgs/".toList key
    sendQuit false (.issued
      { cmdResponse := if f.isAsync then none else some resp
        key := key
        url := consoleUrl req uri
        uri := uri
        solKeyDetected :=
          if f.isAsync ∨ f.solkey = [] then none else some (CLib.strstr f.solkey resp)
        detection := detection })

/-- What is done once the command is issued; `none` if the turns of the capture or the polls of the
detection do not end it. -/
def afterIssue (req : ConsRequest) (f : IssueFields) (locked : Bool) (polls : Nat) :
    ConsProg (Option ConsReply) := do
  match ← armDetection f with
  | .error e => sendQuit locked (.error e)
  | .ok base =>
    let tod : UInt64 ← cons .tod64
    let resp : Bool ← cons (.malloc RESP_CAP)
    if resp = false then sendQuit locked (.error noResponse)
    else
      let turns : List CapturePoll ← cons (.capturePolls f.cmdUpper)
      match captureInto f.cmdUpper RESP_CAP [] none turns with
      | none => return none
      | some (rc, vars, _) =>
        consoleLockRelease locked
        match rc with
        | .failed => sendQuit false (.error notRead)
        | .interrupted => sendQuit false (.error captureAbandoned)
        | .lines total =>
          answerIssued req f base tod (if f.isAsync then [] else vars.out)
            { delivered := if f.isAsync then 0 else total
              echoSecs := vars.echoSecs
              cmd := f.cmdUpper.take (SOL_CMD_SIZE - 1) } polls

/-! ## The handler -/

def lockUnlessQuiescing (anchor : Bool) : ConsProg LockRc := do
  let down : Bool ← cons .serverQuiescing
  if down then return .quiesced else consoleLockAcquire anchor

/-- From the lock on. -/
def issueLocked (req : ConsRequest) (f : IssueFields) (polls : Nat) :
    ConsProg (Option ConsReply) := do
  match ← lockUnlessQuiescing req.anchor with
  | .quiesced => sendQuit false (.error quiescing)
  | .busy => sendQuit false (.error busy)
  | .granted locked =>
    cons (.issueCommand (issueText f.cmdUpper))
    afterIssue req f locked polls

def consoleIssueHandler (req : ConsRequest) (polls : Nat) : ConsProg (Option ConsReply) := do
  let permitted : Bool ← cons .consoleAuthorize
  if permitted = false then return some .refused
  else
    match headerError req with
    | some e => sendQuit false (.error e)
    | none =>
      let body : Except BodyRc (List Char) ← cons .readRequestContent
      match body with
      | .error rc => sendQuit false (.error (bodyError rc))
      | .ok body =>
        match issueFields body with
        | .error e => sendQuit false (.error e)
        | .ok f => issueLocked req f polls

end ConsProg

/-! ## What a watch of the handler passes over -/

/-- The call is for the lock, or it replies. -/
def ConsCall.ofLock : ConsCall → Bool
  | .serverQuiescing | .trylock | .consPollNap | .unlock | .reply _ => true
  | _ => false

namespace ConsProg

universe w

variable {σ : Type w} {m : Prog.Monitor ConsCall ConsCall.Ans σ} {I : σ → Prop}

open Prog.Monitor

theorem obeys_cons {s : σ} {α : Type} {c : ConsCall} {k : c.Ans → ConsProg α} {Q : σ → α → Prop}
    (hallow : m.allow s c) (hk : ∀ a, m.Obeys (m.next s ⟨c, a⟩) (k a) Q) :
    m.Obeys s (cons c >>= k) Q := ⟨hallow, hk⟩

/-- The calls of the lock and the replies keep it. -/
def Frames (m : Prog.Monitor ConsCall ConsCall.Ans σ) (I : σ → Prop) : Prop :=
  ∀ c : ConsCall, c.ofLock = true → m.Keeps I (cons c)

theorem Frames.keeps_release (h : Frames m I) (locked : Bool) :
    m.Keeps I (consoleLockRelease locked) := by
  rw [consoleLockRelease]
  exact .ite (h _ rfl) (.ret _)

theorem Frames.keeps_sendQuit (h : Frames m I) (locked : Bool) (reply : ConsReply) :
    m.Keeps I (sendQuit locked reply) :=
  (h _ rfl).bind fun _ => (h.keeps_release locked).bind fun _ => .ret _

theorem Frames.keeps_lockTries (h : Frames m I) (n : Nat) : m.Keeps I (lockTries n) := by
  induction n with
  | zero => exact .ret _
  | succ n ih =>
    refine (h _ rfl).bind fun taken => ?_
    cases taken with
    | true => exact .ret _
    | false =>
      refine (h _ rfl).bind fun quiescing => ?_
      cases quiescing with
      | true => exact .ret _
      | false => exact (h _ rfl).bind fun _ => ih

theorem Frames.keeps_lockUnlessQuiescing (h : Frames m I) (anchor : Bool) :
    m.Keeps I (lockUnlessQuiescing anchor) := by
  refine (h _ rfl).bind fun down => ?_
  cases down with
  | true => exact .ret _
  | false =>
    change m.Keeps I (consoleLockAcquire anchor)
    rw [consoleLockAcquire]
    exact .ite (h.keeps_lockTries _) (.ret _)

/-- The wait for a message copies the table and reads the clock besides. -/
theorem Frames.keeps_detectLoop (h : Frames m I) (hsnap : m.Keeps I (cons .mttSnap))
    (hnow : m.Keeps I (cons .todHi)) (unsolUpper : List Char) (base : MttAnchor) (timeout : Nat)
    (start : UInt32) (polls : Nat) :
    m.Keeps I (detectLoop unsolUpper base timeout start polls) := by
  induction polls with
  | zero => exact .ret _
  | succ polls ih =>
    refine (h _ rfl).bind fun quiescing => ?_
    cases quiescing with
    | true => exact .ret _
    | false =>
      refine hsnap.bind fun snap => .ite (.ret _) (hnow.bind fun now => ?_)
      exact .ite (.ite (.ret _) (.ret _)) ((h _ rfl).bind fun _ => ih)

end ConsProg

end Mvsmf
