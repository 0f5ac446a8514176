import Mvsmf.Common.Answer
import Mvsmf.Common.JsonBuild

/-!
# JSON replies

A handler describes its answer to the JSON builder, and `sendJSONResponse` sends the builder's text
with its length in the header. What the program describes are objects, their members one behind
another, and arrays of such objects. Whatever their strings hold and whichever request for storage is
refused, the client reads the object that was meant, or no JSON is sent.
-/

namespace Mvsmf

/-- A status, the length the header gives if it has one, and the body in the host's characters. -/
structure JsonReply where
  status : Nat
  contentLength : Option Nat
  body : List UInt8

/-- The requests for storage that were made, and the reply unless it was withheld. -/
structure Sending (ρ : Type) where
  asked : Nat
  reply : Option ρ

/-- A length of 0 stands for one that is not known, and is not announced. -/
def lengthHeader (contentLength : Nat) : Option Nat :=
  if contentLength > 0 then some contentLength else none

section
variable (tbl : JsonTable) (grant : Nat → Bool)

/-- The requests of `createJsonBuilder`: the second one is for the buffer. -/
def builderAsked : Nat := if grant 0 then 2 else 1

/-- The copy of the text asks for storage once more. -/
def sendJSONResponse (status : Nat) (b : JsonBuilder) : Sending JsonReply where
  asked := b.asked + 1
  reply :=
    if grant b.asked then
      let jsonStr := getJsonString b
      some ⟨status, lengthHeader jsonStr.length, jsonStr⟩
    else none

/-- Calls up to the first that fails. -/
def addCalls (b : JsonBuilder) : List JsonCall → Returned
  | [] => .ok b
  | call :: calls => (call.exec tbl grant b).bind fun b => addCalls b calls

/-- A builder, the calls up to the first that fails, and the reply. -/
def sendDocument (status : Nat) (calls : List JsonCall) : Sending JsonReply :=
  match createJsonBuilder grant with
  | none => ⟨builderAsked grant, none⟩
  | some b =>
    match addCalls tbl grant b calls with
    | .error b => ⟨b.asked, none⟩
    | .ok b => sendJSONResponse grant status b

/-- What a client gets of a document: nothing where a request for storage was refused, or the status
with a body of the announced length that is read as `v`. -/
structure Replied (status : Nat) (v : Json.Value) (sending : Sending JsonReply) : Prop where
  sent : ∀ r, sending.reply = some r → r.status = status ∧
    r.contentLength = some (tbl.sent r.body).length ∧ Json.parse (tbl.sent r.body) = some v
  withheld : sending.reply = none → ∃ i < sending.asked, grant i = false

theorem addCalls_ok_iff {b b' : JsonBuilder} {calls : List JsonCall} :
    addCalls tbl grant b calls = .ok b' ↔ buildCalls tbl grant b calls = some b' := by
  induction calls generalizing b with
  | nil =>
    rw [addCalls, buildCalls]
    exact ⟨fun h => congrArg some (Except.ok.inj h), fun h => congrArg Except.ok (Option.some.inj h)⟩
  | cons call calls ih =>
    rw [addCalls, buildCalls]
    cases call.exec tbl grant b with
    | error b₁ => exact ⟨fun h => (by cases h), fun h => (by cases h)⟩
    | ok b₁ => exact ih

theorem addCalls_error {b b' : JsonBuilder} (hb : b.Sound) {calls : List JsonCall}
    (h : addCalls tbl grant b calls = .error b') : ∃ i < b'.asked, grant i = false := by
  induction calls generalizing b with
  | nil => cases h
  | cons call calls ih =>
    have happ := exec_appended tbl grant hb call
    rw [addCalls] at h
    cases hr : call.exec tbl grant b with
    | error b₁ =>
      rw [hr] at h
      cases h
      obtain ⟨i, -, hlt, hi⟩ := (exec_error_iff tbl grant hb call).mp ⟨_, hr⟩
      rw [hr] at hlt
      exact ⟨i, hlt, hi⟩
    | ok b₁ =>
      rw [hr] at h happ
      exact ih happ.2.2.1 h

/-- Without a builder a request was refused. -/
theorem createJsonBuilder_refused (h : createJsonBuilder grant = none) :
    ∃ i < builderAsked grant, grant i = false := by
  rw [builderAsked]
  cases h₀ : grant 0 with
  | false => exact ⟨0, Nat.zero_lt_one, h₀⟩
  | true =>
    refine ⟨1, Nat.one_lt_two, ?_⟩
    by_contra h₁
    rw [createJsonBuilder, if_pos ⟨h₀, Bool.eq_true_of_not_eq_false h₁⟩] at h
    cases h

theorem lengthHeader_of_parse {text : List UInt8} {v : Json.Value}
    (h : Json.parse (tbl.sent text) = some v) :
    lengthHeader text.length = some (tbl.sent text).length := by
  have hlen : (tbl.sent text).length = text.length := List.length_map _
  cases text with
  | nil => cases h
  | cons c text => exact congrArg some hlen.symm

/-- The text of a whole document is read as its tree. -/
theorem parse_built {calls : List JsonCall} {v : Json.Value} (hd : DescribesTree tbl calls v)
    (hk : ∀ call ∈ calls, call.KeyOk tbl) (hf : ∀ call ∈ calls, call.Fits) {b b' : JsonBuilder}
    (hb : createJsonBuilder grant = some b) (he : buildCalls tbl grant b calls = some b') :
    Json.parse (tbl.sent (getJsonString b')) = some v := by
  obtain ⟨hsound, rfl⟩ := createJsonBuilder_sound grant hb
  have hnul : 0 ∉ b'.buffer := (build_appends tbl grant hsound he).2 nofun
  have hwrites := build_writes tbl grant hsound (by trivial) ⟨rfl, rfl⟩ hd hk hf he
  have hend : Json.Parted [] := nofun
  rw [getJsonString_eq hnul, Json.parse, ← List.append_nil (tbl.sent b'.buffer),
    hwrites.leads.read_append fun _ => hend]
  rfl

theorem sendDocument_replied {status : Nat} {calls : List JsonCall} {v : Json.Value}
    (hd : DescribesTree tbl calls v) (hk : ∀ call ∈ calls, call.KeyOk tbl)
    (hf : ∀ call ∈ calls, call.Fits) :
    Replied tbl grant status v (sendDocument tbl grant status calls) := by
  cases hb : createJsonBuilder grant with
  | none =>
    have hsend : sendDocument tbl grant status calls = ⟨builderAsked grant, none⟩ := by
      rw [sendDocument, hb]
    rw [hsend]
    exact ⟨fun r hr => (by cases hr), fun _ => createJsonBuilder_refused grant hb⟩
  | some b =>
    obtain ⟨hsound, -⟩ := createJsonBuilder_sound grant hb
    cases he : addCalls tbl grant b calls with
    | error b' =>
      have hsend : sendDocument tbl grant status calls = ⟨b'.asked, none⟩ := by
        rw [sendDocument, hb]
        dsimp only
        rw [he]
      rw [hsend]
      exact ⟨fun r hr => (by cases hr), fun _ => addCalls_error tbl grant hsound he⟩
    | ok b' =>
      have hsend : sendDocument tbl grant status calls = sendJSONResponse grant status b' := by
        rw [sendDocument, hb]
        dsimp only
        rw [he]
      have hparse := parse_built tbl grant hd hk hf hb ((addCalls_ok_iff tbl grant).mp he)
      rw [hsend]
      constructor
      · intro r hr
        obtain ⟨-, hr⟩ := Option.ite_none_right_eq_some.mp hr
        obtain rfl := Option.some.inj hr
        exact ⟨rfl, lengthHeader_of_parse tbl hparse, hparse⟩
      · intro hnone
        refine ⟨b'.asked, Nat.lt_succ_self _, ?_⟩
        by_contra hg
        rw [sendJSONResponse, if_pos (Bool.eq_true_of_not_eq_false hg)] at hnone
        cases hnone

end

/-! ## Names -/

/-- The characters of the names that the program gives the members. -/
def isKeyChar (c : Char) : Bool := c.isAlphanum || c = '-'

/-- A name of the source: it is short, and goes into a document as it stands. -/
structure JsonName where
  chars : List Char
  named : chars.all isKeyChar = true
  short : chars.length < 253

theorem isJsonChar_of_isKeyChar {c : Char} (h : isKeyChar c = true) : isJsonChar c = true := by
  simp only [isKeyChar, isJsonChar, Bool.or_eq_true, decide_eq_true_eq] at h ⊢
  tauto

theorem plain_of_isKeyChar {c : Char} (h : isKeyChar c = true) : Json.Plain c := by
  apply Json.plain_of_isWord
  simp only [isKeyChar, Json.isWord, Bool.or_eq_true, decide_eq_true_eq] at h ⊢
  tauto

theorem JsonName.all_isJsonChar (n : JsonName) : n.chars.all isJsonChar = true :=
  List.all_eq_true.mpr fun c hc => isJsonChar_of_isKeyChar (List.all_eq_true.mp n.named c hc)

section
variable (tbl : JsonTable)

/-- The name in the host's characters. -/
def JsonTable.name (n : JsonName) : CStr :=
  ⟨tbl.lit n.chars, zero_notMem_lit tbl n.chars n.all_isJsonChar⟩

theorem sent_name (n : JsonName) : tbl.sent (tbl.name n).bytes = n.chars :=
  sent_lit tbl n.chars n.all_isJsonChar

theorem unitsOf_name (n : JsonName) : tbl.unitsOf (tbl.name n).bytes = Json.units n.chars := by
  rw [← units_sent, sent_name]

theorem length_name (n : JsonName) : (tbl.name n).bytes.length = n.chars.length := List.length_map _

end

/-! ## Objects -/

/-- A member of an object as the program adds it. -/
inductive Member
  | num (key : JsonName) (value : Int32)
  | str (key : JsonName) (value : Option CStr)
  | bool (key : JsonName) (value : Bool)
  | strs (key : JsonName) (values : List CStr)

namespace Member

def key : Member → JsonName
  | .num key _ | .str key _ | .bool key _ | .strs key _ => key

def calls (tbl : JsonTable) : Member → List JsonCall
  | .num key value => [.addJsonNumber (tbl.name key) value]
  | .str key value => [.addJsonString (tbl.name key) value]
  | .bool key value => [.addJsonBool (tbl.name key) value]
  | .strs key values =>
    .startJsonArrayKey (tbl.name key) ::
      (values.map (fun value => .addJsonArrayString (some value)) ++ [.endArray])

def value (tbl : JsonTable) : Member → Json.Value
  | .num _ value => .num value.toInt 0
  | .str _ value => tbl.stringValue value
  | .bool _ value => .bool value
  | .strs _ values => .arr (values.map fun value => tbl.stringValue (some value))

def entry (tbl : JsonTable) (m : Member) : List Nat × Json.Value :=
  (Json.units m.key.chars, m.value tbl)

end Member

def objectCalls (tbl : JsonTable) (ms : List Member) : List JsonCall :=
  .startJsonObject :: (ms.flatMap (Member.calls tbl) ++ [.endJsonObject])

def objectValue (tbl : JsonTable) (ms : List Member) : Json.Value := .obj (ms.map (Member.entry tbl))

section
variable (tbl : JsonTable)

theorem describeAll_append (st : List Json.Frame) (xs ys : List JsonCall) :
    describeAll tbl st (xs ++ ys) =
      (describeAll tbl st xs).bind fun st' => describeAll tbl st' ys := by
  induction xs generalizing st with
  | nil => rfl
  | cons x xs ih =>
    rw [List.cons_append, describeAll, describeAll, Option.bind_assoc]
    exact congrArg _ (funext ih)

theorem describeAll_strings (values : List CStr) (vs : List Json.Value) (st : List Json.Frame) :
    describeAll tbl (.arr vs :: st) (values.map fun value => .addJsonArrayString (some value)) =
      some (.arr (vs ++ values.map fun value => tbl.stringValue (some value)) :: st) := by
  induction values generalizing vs with
  | nil => rw [List.map_nil, List.map_nil, List.append_nil, describeAll]
  | cons value values ih =>
    rw [List.map_cons, List.map_cons, describeAll, describe, Option.bind_some, ih,
      List.append_assoc, List.singleton_append]

theorem describeMember_name (n : JsonName) (v : Json.Value) (ms : List (List Nat × Json.Value))
    (st : List Json.Frame) :
    describeMember tbl (tbl.name n) v (.obj ms none :: st) =
      some (.obj (ms ++ [(Json.units n.chars, v)]) none :: st) := by
  rw [describeMember, unitsOf_name]

theorem describeAll_member (m : Member) (ms : List (List Nat × Json.Value))
    (st : List Json.Frame) :
    describeAll tbl (.obj ms none :: st) (m.calls tbl) =
      some (.obj (ms ++ [m.entry tbl]) none :: st) := by
  cases m with
  | num key value =>
    rw [Member.calls, describeAll, describe, describeMember_name]
    rfl
  | str key value =>
    rw [Member.calls, describeAll, describe, describeMember_name]
    rfl
  | bool key value =>
    rw [Member.calls, describeAll, describe, describeMember_name]
    rfl
  | strs key values =>
    rw [Member.calls, describeAll, describe, Option.bind_some, describeAll_append,
      describeAll_strings, unitsOf_name]
    rfl

theorem describeAll_members (members : List Member) (ms : List (List Nat × Json.Value))
    (st : List Json.Frame) :
    describeAll tbl (.obj ms none :: st) (members.flatMap (Member.calls tbl)) =
      some (.obj (ms ++ members.map (Member.entry tbl)) none :: st) := by
  induction members generalizing ms with
  | nil => rw [List.flatMap_nil, List.map_nil, List.append_nil, describeAll]
  | cons m members ih =>
    rw [List.flatMap_cons, describeAll_append, describeAll_member, Option.bind_some, ih,
      List.map_cons, List.append_assoc, List.singleton_append]

/-- An object is one value of the container it is put into. -/
theorem describeAll_object (members : List Member) {st st' : List Json.Frame}
    (hstart : describe tbl st .startJsonObject = some (.obj [] none :: st')) :
    describeAll tbl st (objectCalls tbl members) =
      some (Json.put st' (objectValue tbl members)) := by
  rw [objectCalls, describeAll, hstart, Option.bind_some, describeAll_append, describeAll_members]
  rfl

theorem describes_object (members : List Member) :
    DescribesTree tbl (objectCalls tbl members) (objectValue tbl members) :=
  @describeAll_object tbl members [.doc none] [.doc none] rfl

/-- The call's key is short and needs no escape, and what is formatted fits. -/
def CallOk (call : JsonCall) : Prop := call.KeyOk tbl ∧ call.Fits

theorem name_ok (n : JsonName) : (tbl.name n).bytes.length < JSON_TEMP_BUFFER_SIZE ∧
    ∀ c ∈ tbl.sent (tbl.name n).bytes, Json.Plain c := by
  rw [length_name, sent_name]
  refine ⟨n.short.trans (by decide), fun c hc => ?_⟩
  exact plain_of_isKeyChar (List.all_eq_true.mp n.named c hc)

theorem member_ok (m : Member) : ∀ call ∈ m.calls tbl, CallOk tbl call := by
  cases m with
  | num key value =>
    refine List.forall_mem_singleton.mpr ⟨name_ok tbl key, ?_⟩
    rw [JsonCall.Fits, length_name]
    exact Nat.add_lt_add_right key.short 3
  | str key value => exact List.forall_mem_singleton.mpr ⟨name_ok tbl key, trivial⟩
  | bool key value => exact List.forall_mem_singleton.mpr ⟨name_ok tbl key, trivial⟩
  | strs key values =>
    refine List.forall_mem_cons.mpr ⟨⟨name_ok tbl key, trivial⟩, fun call hcall => ?_⟩
    rcases List.mem_append.mp hcall with hcall | hcall
    · obtain ⟨value, -, rfl⟩ := List.mem_map.mp hcall
      exact ⟨trivial, trivial⟩
    · rw [List.mem_singleton.mp hcall]
      exact ⟨trivial, trivial⟩

theorem object_ok (members : List Member) :
    ∀ call ∈ objectCalls tbl members, CallOk tbl call := by
  intro call hcall
  rcases List.mem_cons.mp hcall with rfl | hcall
  · exact ⟨trivial, trivial⟩
  · rcases List.mem_append.mp hcall with hcall | hcall
    · obtain ⟨m, -, hcall⟩ := List.mem_flatMap.mp hcall
      exact member_ok tbl m call hcall
    · rw [List.mem_singleton.mp hcall]
      exact ⟨trivial, trivial⟩

/-- An object reaches the client. -/
theorem sendObject_replied (grant : Nat → Bool) (status : Nat) (members : List Member) :
    Replied tbl grant status (objectValue tbl members)
      (sendDocument tbl grant status (objectCalls tbl members)) :=
  sendDocument_replied tbl grant (describes_object tbl members)
    (fun call hcall => (object_ok tbl members call hcall).1)
    fun call hcall => (object_ok tbl members call hcall).2

end

end Mvsmf
