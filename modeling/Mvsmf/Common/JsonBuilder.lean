import Mvsmf.Lib.Json

/-!
# The JSON builder

`json.c`: a document is appended call by call to one buffer that doubles when it is full, in the
host's characters; the response is translated with `etoa` when it is sent, and what a string escapes
is decided on the byte the client receives. `grant` says whether the n-th request for storage is
met.
-/

namespace Mvsmf

/-! ## Characters and strings -/

/-- The characters of JSON that the program writes itself. -/
def isJsonChar (c : Char) : Bool :=
  c.isAlphanum || c = '-' || c = '"' || c = '\\' || c = ',' || c = ':' || c = '{' || c = '}' ||
    c = '[' || c = ']'

/-- The host's character set and the table a response is translated with; without a table the host's
text is ASCII. -/
structure JsonTable where
  host : Char → UInt8
  etoa : Option (UInt8 → UInt8)
  maps : ∀ c, isJsonChar c = true → (etoa.getD id) (host c) = UInt8.ofNat c.toNat
  notNul : ∀ c, isJsonChar c = true → host c ≠ 0

/-- What the client receives for a byte. -/
def JsonTable.translate (tbl : JsonTable) (b : UInt8) : UInt8 := (tbl.etoa.getD id) b

/-- A literal of the source. -/
def JsonTable.lit (tbl : JsonTable) (cs : List Char) : List UInt8 := cs.map tbl.host

/-- The text the client receives, in Latin-1. -/
def JsonTable.sent (tbl : JsonTable) (bs : List UInt8) : List Char :=
  bs.map fun b => Char.ofNat (tbl.translate b).toNat

/-- The bytes of a C string. -/
structure CStr where
  bytes : List UInt8
  noNul : 0 ∉ bytes

/-! ## Escapes -/

def JSON_INITIAL_BUFFER_SIZE : Nat := 1024

def JSON_TEMP_BUFFER_SIZE : Nat := 256

def JSON_GROWTH_FACTOR : Nat := 2

def JSON_ESC_MAX : Nat := 6

/-- A digit of `%X`. -/
def upperHex (d : Nat) : Char := d.digitChar.toUpper

/-- One character of a JSON string; `nonascii` is `JSON_ESC_NONASCII`. -/
def escapeChar (tbl : JsonTable) (nonascii : Bool) (b : UInt8) : List UInt8 :=
  let a := (tbl.translate b).toNat
  if a = 0x22 then tbl.lit ['\\', '"']
  else if a = 0x5C then tbl.lit ['\\', '\\']
  else if a = 0x08 then tbl.lit ['\\', 'b']
  else if a = 0x0C then tbl.lit ['\\', 'f']
  else if a = 0x0D then tbl.lit ['\\', 'r']
  else if a = 0x0A then tbl.lit ['\\', 'n']
  else if a = 0x09 then tbl.lit ['\\', 't']
  else if a < 0x20 ∨ (0x7F ≤ a ∧ (a ≤ 0x9F ∨ nonascii)) then
    tbl.lit ['\\', 'u', '0', '0', upperHex (a / 16), upperHex (a % 16)]
  else [b]

def escapeLoop (tbl : JsonTable) (nonascii : Bool) (outlen : Nat) :
    List UInt8 → List UInt8 → List UInt8
  | out, [] => out
  | out, b :: raw =>
    -- room for the longest escape and the terminator
    if out.length + JSON_ESC_MAX ≥ outlen then out
    else escapeLoop tbl nonascii outlen (out ++ escapeChar tbl nonascii b) raw

/-- What is written to `out`, without the terminator. -/
def jsonEscapeBytes (tbl : JsonTable) (outlen : Nat) (raw : List UInt8) (nonascii : Bool) :
    List UInt8 :=
  if outlen = 0 then [] else escapeLoop tbl nonascii outlen [] raw

/-! ## The buffer -/

/-- A builder. `buffer` is its text, so `size` is its length; `asked` counts the requests for
storage. -/
structure JsonBuilder where
  isFirst : Bool
  buffer : List UInt8
  capacity : Nat
  asked : Nat

section Builder
variable (tbl : JsonTable) (grant : Nat → Bool)

def createJsonBuilder : Option JsonBuilder :=
  if grant 0 ∧ grant 1 then some ⟨true, [], JSON_INITIAL_BUFFER_SIZE, 2⟩ else none

/-- What a call leaves: the builder behind a return of 0, or of -1. -/
abbrev Returned := Except JsonBuilder JsonBuilder

def ensureCapacity (b : JsonBuilder) (needed : Nat) : Returned :=
  if b.buffer.length + needed ≥ b.capacity then
    let newCapacity := b.capacity * JSON_GROWTH_FACTOR
    let newCapacity :=
      if newCapacity < b.buffer.length + needed then
        b.buffer.length + needed + JSON_INITIAL_BUFFER_SIZE
      else newCapacity
    if grant b.asked then .ok { b with capacity := newCapacity, asked := b.asked + 1 }
    else .error { b with asked := b.asked + 1 }
  else .ok b

def appendString (b : JsonBuilder) (str : List UInt8) : Returned :=
  (ensureCapacity grant b (str.length + 1)).map fun b => { b with buffer := b.buffer ++ str }

/-- Several strings, up to the first that fails. -/
def appendStrings (b : JsonBuilder) : List (List UInt8) → Returned
  | [] => .ok b
  | str :: strs => (appendString grant b str).bind fun b => appendStrings b strs

/-- What every call does: a comma where one is due, its strings, and `is_first`. -/
def emit (b : JsonBuilder) (separated : Bool) (strs : List (List UInt8)) (first : Bool) :
    Returned :=
  (appendStrings grant b
    ((if separated && !b.isFirst then [tbl.lit [',']] else []) ++ strs)).map
    fun b => { b with isFirst := first }

/-! ## The calls -/

def startJsonObject (b : JsonBuilder) : Returned := emit tbl grant b true [tbl.lit ['{']] true

def endJsonObject (b : JsonBuilder) : Returned := emit tbl grant b false [tbl.lit ['}']] false

def startArray (b : JsonBuilder) : Returned := emit tbl grant b false [tbl.lit ['[']] b.isFirst

def endArray (b : JsonBuilder) : Returned := emit tbl grant b false [tbl.lit [']']] false

/-- The strings in front of a member's value. -/
def keyStrings (key : CStr) : List (List UInt8) := [tbl.lit ['"'], key.bytes, tbl.lit ['"', ':']]

def addJsonRaw (b : JsonBuilder) (key raw : CStr) : Returned :=
  emit tbl grant b true (keyStrings tbl key ++ [raw.bytes]) false

def startJsonArrayKey (b : JsonBuilder) (key : CStr) : Returned :=
  emit tbl grant b true [tbl.lit ['"'], key.bytes, tbl.lit ['"', ':', '[']] true

/-- What `append_quoted` appends. -/
def quotedStrings (value : CStr) : List (List UInt8) :=
  tbl.lit ['"'] :: (value.bytes.map (escapeChar tbl false) ++ [tbl.lit ['"']])

/-- A string value, or `null`. -/
def valueStrings : Option CStr → List (List UInt8)
  | none => [tbl.lit ['n', 'u', 'l', 'l']]
  | some value => quotedStrings tbl value

def addJsonStringEsc (b : JsonBuilder) (key : CStr) (value : Option CStr) : Returned :=
  emit tbl grant b true (keyStrings tbl key ++ valueStrings tbl value) false

def addJsonString (b : JsonBuilder) (key : CStr) (value : Option CStr) : Returned :=
  addJsonStringEsc tbl grant b key value

def addJsonArrayString (b : JsonBuilder) (value : Option CStr) : Returned :=
  emit tbl grant b true (valueStrings tbl value) false

def addJsonBool (b : JsonBuilder) (key : CStr) (value : Bool) : Returned :=
  emit tbl grant b true
    (keyStrings tbl key ++ [tbl.lit (if value then ['t', 'r', 'u', 'e'] else
      ['f', 'a', 'l', 's', 'e'])]) false

/-- `snprintf` into the temp buffer. -/
def temp (bs : List UInt8) : List UInt8 := bs.take (JSON_TEMP_BUFFER_SIZE - 1)

/-- The key and the number are formatted into the temp buffer one after the other. -/
def addJsonNumber (b : JsonBuilder) (key : CStr) (value : Int32) : Returned :=
  emit tbl grant b true
    [temp (tbl.lit ['"'] ++ key.bytes ++ tbl.lit ['"', ':']),
      temp (tbl.lit (Json.decimal value.toInt))] false

/-- The text, up to its terminator. -/
def getJsonString (b : JsonBuilder) : List UInt8 := b.buffer.takeWhile (· ≠ 0)

inductive JsonCall
  | startJsonObject
  | endJsonObject
  | startArray
  | endArray
  | startJsonArrayKey (key : CStr)
  | addJsonRaw (key raw : CStr)
  | addJsonString (key : CStr) (value : Option CStr)
  | addJsonStringEsc (key : CStr) (value : Option CStr)
  | addJsonArrayString (value : Option CStr)
  | addJsonBool (key : CStr) (value : Bool)
  | addJsonNumber (key : CStr) (value : Int32)

def JsonCall.exec (b : JsonBuilder) : JsonCall → Returned
  | .startJsonObject => Mvsmf.startJsonObject tbl grant b
  | .endJsonObject => Mvsmf.endJsonObject tbl grant b
  | .startArray => Mvsmf.startArray tbl grant b
  | .endArray => Mvsmf.endArray tbl grant b
  | .startJsonArrayKey key => Mvsmf.startJsonArrayKey tbl grant b key
  | .addJsonRaw key raw => Mvsmf.addJsonRaw tbl grant b key raw
  | .addJsonString key value => Mvsmf.addJsonString tbl grant b key value
  | .addJsonStringEsc key value => Mvsmf.addJsonStringEsc tbl grant b key value
  | .addJsonArrayString value => Mvsmf.addJsonArrayString tbl grant b value
  | .addJsonBool key value => Mvsmf.addJsonBool tbl grant b key value
  | .addJsonNumber key value => Mvsmf.addJsonNumber tbl grant b key value

/-- The builder behind a call, whatever it returned. -/
def Returned.builder : Returned → JsonBuilder
  | .ok b => b
  | .error b => b

/-- The builder behind calls of which some may have failed. -/
def runCalls (b : JsonBuilder) (calls : List JsonCall) : JsonBuilder :=
  calls.foldl (fun b call => (call.exec tbl grant b).builder) b

/-- The builder behind calls that all returned 0. -/
def buildCalls (b : JsonBuilder) : List JsonCall → Option JsonBuilder
  | [] => some b
  | call :: calls =>
    match call.exec tbl grant b with
    | .ok b => buildCalls b calls
    | .error _ => none

end Builder

end Mvsmf
