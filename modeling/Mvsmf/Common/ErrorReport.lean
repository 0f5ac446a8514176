import Mvsmf.Common.JsonReply
import Mvsmf.Lib.JsonFields

/-!
# Error reports

Every error of the handlers goes out through `sendErrorResponse` of common.c, those of the console
through `send_console_error` of consapi.c. A client that looks the members of a report up by their
names finds what the handler gave, whatever bytes the texts have.
-/

namespace Mvsmf

def reportMembers (category rc reason : Int32) (message : Option CStr) (details : List CStr) :
    List Member :=
  [.num ⟨"rc".toList, rfl, by simp⟩ rc, .num ⟨"category".toList, rfl, by simp⟩ category,
    .num ⟨"reason".toList, rfl, by simp⟩ reason] ++
  (message.toList.map fun text => .str ⟨"message".toList, rfl, by simp⟩ (some text)) ++
  (if details = [] then [] else [.strs ⟨"details".toList, rfl, by simp⟩ details])

section
variable (tbl : JsonTable) (grant : Nat → Bool)

/-- The return code and what is sent. Without a builder the code is that of success. -/
def sendErrorResponse (status : Nat) (category rc reason : Int32) (message : Option CStr)
    (details : List CStr) : Int × Sending JsonReply :=
  match createJsonBuilder grant with
  | none => (0, ⟨builderAsked grant, none⟩)
  | some _ =>
    let sending := sendDocument tbl grant status
      (objectCalls tbl (reportMembers category rc reason message details))
    (if sending.reply.isSome then 0 else -1, sending)

def consoleErrorMembers (retcode reasonCode : Int32) (reason : CStr) : List Member :=
  [.num ⟨"return-code".toList, rfl, by simp⟩ retcode,
    .num ⟨"reason-code".toList, rfl, by simp⟩ reasonCode,
    .str ⟨"reason".toList, rfl, by simp⟩ (some reason)]

/-- A status with a report, or with an empty body where there is no builder. -/
inductive ConsoleReply
  | report (r : JsonReply)
  | bare (status : Nat)

def sendConsoleError (status : Nat) (retcode reasonCode : Int32) (reason : CStr) :
    Sending ConsoleReply :=
  match createJsonBuilder grant with
  | none => ⟨builderAsked grant, some (.bare status)⟩
  | some _ =>
    let sending := sendDocument tbl grant status
      (objectCalls tbl (consoleErrorMembers retcode reasonCode reason))
    ⟨sending.asked, sending.reply.map .report⟩

end

/-! ## What a client finds -/

/-- A report as a client has it. -/
structure ErrorReport where
  rc : Int
  category : Int
  reason : Int
  message : Option (List Nat)
  details : List (List Nat)
  deriving DecidableEq

def readReport (v : Json.Value) : Option ErrorReport := do
  let rc ← (← v.field "rc".toList).asInt
  let category ← (← v.field "category".toList).asInt
  let reason ← (← v.field "reason".toList).asInt
  let message := (v.field "message".toList).bind Json.Value.asString
  let details := (v.field "details".toList).bind (Json.Value.asList Json.Value.asString)
  return ⟨rc, category, reason, message, details.getD []⟩

section
variable (tbl : JsonTable)

/-- What a client finds of the members it looks up. -/
theorem readReport_fields {v : Json.Value} {rc category reason : Int} {message : Option (List Nat)}
    {details : Option (List (List Nat))} {ds : List (List Nat)}
    (hrc : v.field "rc".toList = some (.num rc 0))
    (hcategory : v.field "category".toList = some (.num category 0))
    (hreason : v.field "reason".toList = some (.num reason 0))
    (hmessage : (v.field "message".toList).bind Json.Value.asString = message)
    (hdetails : (v.field "details".toList).bind (Json.Value.asList Json.Value.asString) =
      details) (hds : details.getD [] = ds) :
    readReport v = some ⟨rc, category, reason, message, ds⟩ := by
  simp only [readReport, hrc, hcategory, hreason, hmessage, hdetails, Json.Value.asInt, ← hds]
  rfl

theorem readReport_value (category rc reason : Int32) (message : Option CStr)
    (details : List CStr) :
    readReport (objectValue tbl (reportMembers category rc reason message details)) =
      some ⟨rc.toInt, category.toInt, reason.toInt, message.map fun text => tbl.unitsOf text.bytes,
        details.map fun text => tbl.unitsOf text.bytes⟩ := by
  have hstrings : Json.Value.asList Json.Value.asString
        (.arr (details.map fun text => tbl.stringValue (some text))) =
      some (details.map fun text => tbl.unitsOf text.bytes) :=
    Json.Value.asList_map details fun _ _ => rfl
  cases hd : details with
  | nil =>
    cases message
    all_goals exact readReport_fields rfl rfl rfl rfl rfl rfl
  | cons d ds =>
    rw [hd] at hstrings
    cases message with
    | none =>
      apply @readReport_fields (objectValue tbl (reportMembers category rc reason none (d :: ds)))
        rc.toInt category.toInt reason.toInt none _ _ rfl rfl rfl rfl hstrings rfl
    | some text =>
      apply @readReport_fields
        (objectValue tbl (reportMembers category rc reason (some text) (d :: ds)))
        rc.toInt category.toInt reason.toInt (some (tbl.unitsOf text.bytes)) _ _ rfl rfl rfl rfl
        hstrings rfl

/-- A report of the console as a client has it. -/
structure ConsoleReport where
  retcode : Int
  reasonCode : Int
  reason : List Nat
  deriving DecidableEq

def readConsoleReport (v : Json.Value) : Option ConsoleReport := do
  let retcode ← (← v.field "return-code".toList).asInt
  let reasonCode ← (← v.field "reason-code".toList).asInt
  let reason ← (← v.field "reason".toList).asString
  return ⟨retcode, reasonCode, reason⟩

theorem readConsoleReport_value (retcode reasonCode : Int32) (reason : CStr) :
    readConsoleReport (objectValue tbl (consoleErrorMembers retcode reasonCode reason)) =
      some ⟨retcode.toInt, reasonCode.toInt, tbl.unitsOf reason.bytes⟩ := rfl

/-- A reply with a value that is read as a report. -/
theorem Replied.reads {α : Type} {grant : Nat → Bool} {status : Nat} {v : Json.Value}
    {sending : Sending JsonReply} (h : Replied tbl grant status v sending)
    {reader : Json.Value → Option α} {a : α} (hv : reader v = some a) {r : JsonReply}
    (hr : sending.reply = some r) :
    r.status = status ∧ r.contentLength = some (tbl.sent r.body).length ∧
      (Json.parse (tbl.sent r.body)).bind reader = some a := by
  obtain ⟨hstatus, hlength, hparse⟩ := h.sent r hr
  refine ⟨hstatus, hlength, ?_⟩
  rw [hparse, Option.bind_some, hv]

/-- **Error reports.** A client that is sent a report reads in it, under the status and in as many
bytes as were announced, the codes and the texts the handler gave. A report is withheld only where a
request for storage that was made for it was refused; the console answers with the bare status if and
only if it got no builder. -/
theorem errorReport_read (grant : Nat → Bool) (status : Nat) (category rc reason : Int32)
    (message : Option CStr) (details : List CStr) (retcode reasonCode : Int32) (text : CStr) :
    let error := (sendErrorResponse tbl grant status category rc reason message details).2
    let console := sendConsoleError tbl grant status retcode reasonCode text
    (∀ r, error.reply = some r →
      r.status = status ∧ r.contentLength = some (tbl.sent r.body).length ∧
        (Json.parse (tbl.sent r.body)).bind readReport =
          some ⟨rc.toInt, category.toInt, reason.toInt, message.map fun m => tbl.unitsOf m.bytes,
            details.map fun d => tbl.unitsOf d.bytes⟩) ∧
    (error.reply = none → ∃ i < error.asked, grant i = false) ∧
    (∀ r, console.reply = some (.report r) →
      r.status = status ∧ r.contentLength = some (tbl.sent r.body).length ∧
        (Json.parse (tbl.sent r.body)).bind readConsoleReport =
          some ⟨retcode.toInt, reasonCode.toInt, tbl.unitsOf text.bytes⟩) ∧
    (∀ bare, console.reply = some (.bare bare) ↔ bare = status ∧ createJsonBuilder grant = none) ∧
    (console.reply = none → ∃ i < console.asked, grant i = false) := by
  intro error console
  have hreport := sendObject_replied tbl grant status
    (reportMembers category rc reason message details)
  have hconsole := sendObject_replied tbl grant status
    (consoleErrorMembers retcode reasonCode text)
  dsimp only [error, console, sendErrorResponse, sendConsoleError]
  cases hb : createJsonBuilder grant with
  | none =>
    refine ⟨fun r hr => (by cases hr), fun _ => createJsonBuilder_refused grant hb,
      fun r hr => (by cases hr), fun bare => ⟨?_, ?_⟩, fun hnone => (by cases hnone)⟩
    · rintro ⟨⟩
      exact ⟨rfl, rfl⟩
    · rintro ⟨rfl, -⟩
      rfl
  | some b =>
    refine ⟨fun r hr => ?_, hreport.withheld, fun r hr => ?_, fun bare => ⟨fun hbare => ?_, ?_⟩,
      fun hnone => hconsole.withheld (Option.map_eq_none_iff.mp hnone)⟩
    · exact hreport.reads tbl (readReport_value tbl category rc reason message details) hr
    · obtain ⟨r', hr', heq⟩ := Option.map_eq_some_iff.mp hr
      cases heq
      exact hconsole.reads tbl (readConsoleReport_value tbl retcode reasonCode text) hr'
    · obtain ⟨r', -, heq⟩ := Option.map_eq_some_iff.mp hbare
      cases heq
    · rintro ⟨-, hno⟩
      cases hno

end

end Mvsmf
