import Mvsmf.Common.JsonBuilder
import Mvsmf.Lib.JsonVerbatim

/-!
# What the builder's calls write

The calls describe a tree, the containers that are open on a stack. Behind any well-nested calls
that succeeded, the text sent leads a reader of JSON to the same stack, so the text of a whole
document is read as its tree.
-/

namespace Mvsmf

section Text
variable (tbl : JsonTable)

/-- The Latin-1 characters the bytes map to. -/
def JsonTable.unitsOf (bs : List UInt8) : List Nat := bs.map fun b => (tbl.translate b).toNat

theorem sent_append (xs ys : List UInt8) : tbl.sent (xs ++ ys) = tbl.sent xs ++ tbl.sent ys :=
  List.map_append

theorem isJsonChar_lt {c : Char} (h : isJsonChar c = true) : c.toNat < 256 := by
  simp only [isJsonChar, Bool.or_eq_true, decide_eq_true_eq] at h
  rcases h with ((((((((h | rfl) | rfl) | rfl) | rfl) | rfl) | rfl) | rfl) | rfl) | rfl
  · simp only [Char.isAlphanum, Char.isAlpha, Char.isUpper, Char.isLower, Char.isDigit,
      Bool.or_eq_true, Bool.and_eq_true, decide_eq_true_eq, UInt32.le_iff_toNat_le, ge_iff_le] at h
    have hc : c.toNat = c.val.toNat := rfl
    have hZ : 'Z'.val.toNat = 90 := rfl
    have hz : 'z'.val.toNat = 122 := rfl
    have h9 : '9'.val.toNat = 57 := rfl
    omega
  all_goals decide

theorem toNat_ofNat_byte (b : UInt8) : (Char.ofNat b.toNat).toNat = b.toNat := by
  have hv : Nat.isValidChar b.toNat := .inl (Nat.lt_trans b.toNat_lt (by decide))
  rw [Char.ofNat, dif_pos hv]
  rfl

theorem sent_lit_of {cs : List Char}
    (h : ∀ c ∈ cs, c.toNat < 256 ∧ tbl.translate (tbl.host c) = UInt8.ofNat c.toNat) :
    tbl.sent (tbl.lit cs) = cs := by
  rw [JsonTable.sent, JsonTable.lit, List.map_map]
  refine List.map_congr_left (fun c hc => ?_) |>.trans (List.map_id cs)
  obtain ⟨hlt, hmap⟩ := h c hc
  change Char.ofNat (tbl.translate (tbl.host c)).toNat = c
  rw [hmap, UInt8.toNat_ofNat_of_lt' hlt, Char.ofNat_toNat]

/-- A literal reaches the client as it stands in the source. -/
theorem sent_lit (cs : List Char) (h : cs.all isJsonChar = true) : tbl.sent (tbl.lit cs) = cs :=
  sent_lit_of tbl fun c hc =>
    have hj := List.all_eq_true.mp h c hc
    ⟨isJsonChar_lt hj, tbl.maps c hj⟩

theorem units_sent (bs : List UInt8) : Json.units (tbl.sent bs) = tbl.unitsOf bs := by
  rw [Json.units, JsonTable.sent, List.map_map]
  exact List.map_congr_left fun b _ => toNat_ofNat_byte _

/-! ## Escapes -/

theorem hex_upperHex : ∀ a < 256,
    Json.hexFrom 0 ['0', '0', upperHex (a / 16), upperHex (a % 16)] = some a := by
  decide +kernel

theorem isJsonChar_upperHex : ∀ d < 16, isJsonChar (upperHex d) = true := by
  decide

/-- One byte is written as text that reads as the character it is sent as. -/
theorem escapeChar_chars (nonascii : Bool) (b : UInt8) :
    Json.Chars (tbl.sent (escapeChar tbl nonascii b)) [(tbl.translate b).toNat] := by
  have hlt := (tbl.translate b).toNat_lt
  have hpair : ∀ {e : Char} {u : Nat}, isJsonChar e = true → Json.short e = some u →
      (tbl.translate b).toNat = u →
      Json.Chars (tbl.sent (tbl.lit ['\\', e])) [(tbl.translate b).toNat] := by
    intro e u he hu ha
    rw [sent_lit tbl _ (by simp only [List.all_cons, he, List.all_nil]; rfl), ha]
    exact .short hu .nil
  simp only [escapeChar]
  split
  · rename_i ha; exact hpair (e := '"') rfl rfl ha
  split
  · rename_i ha; exact hpair (e := '\\') rfl rfl ha
  split
  · rename_i ha; exact hpair (e := 'b') rfl rfl ha
  split
  · rename_i ha; exact hpair (e := 'f') rfl rfl ha
  split
  · rename_i ha; exact hpair (e := 'r') rfl rfl ha
  split
  · rename_i ha; exact hpair (e := 'n') rfl rfl ha
  split
  · rename_i ha; exact hpair (e := 't') rfl rfl ha
  rename_i hq hb _ _ _ _ _
  split
  · have h₁ := isJsonChar_upperHex ((tbl.translate b).toNat / 16) (by omega)
    have h₂ := isJsonChar_upperHex ((tbl.translate b).toNat % 16) (by omega)
    rw [sent_lit tbl _ (by simp only [List.all_cons, h₁, h₂, List.all_nil]; rfl)]
    exact .code (by rfl) (hex_upperHex _ hlt) .nil
  · rename_i hctl
    have hchar := toNat_ofNat_byte (tbl.translate b)
    have hplain : Json.Plain (Char.ofNat (tbl.translate b).toNat) := by
      refine ⟨ne_of_apply_ne Char.toNat ?_, ne_of_apply_ne Char.toNat ?_, ?_⟩
      · rw [hchar]; exact hq
      · rw [hchar]; exact hb
      · rw [hchar]
        omega
    exact hchar ▸ .plain hplain .nil

theorem escaped_chars (nonascii : Bool) (bs : List UInt8) :
    Json.Chars (tbl.sent (bs.flatMap (escapeChar tbl nonascii))) (tbl.unitsOf bs) := by
  induction bs with
  | nil => exact .nil
  | cons b bs ih =>
    rw [List.flatMap_cons, sent_append]
    exact (escapeChar_chars tbl nonascii b).append ih

theorem length_escapeChar_le (nonascii : Bool) (b : UInt8) :
    (escapeChar tbl nonascii b).length ≤ JSON_ESC_MAX := by
  simp only [escapeChar, JSON_ESC_MAX]
  repeat' split
  all_goals simp [JsonTable.lit]

/-- The loop takes whole characters as long as one of any length has room. -/
theorem escapeLoop_spec (nonascii : Bool) (outlen : Nat) (out raw : List UInt8)
    (hout : out.length < outlen) : ∃ k ≤ raw.length,
      escapeLoop tbl nonascii outlen out raw =
        out ++ (raw.take k).flatMap (escapeChar tbl nonascii) ∧
      (escapeLoop tbl nonascii outlen out raw).length < outlen ∧
      (k < raw.length →
        outlen ≤ (escapeLoop tbl nonascii outlen out raw).length + JSON_ESC_MAX) := by
  induction raw generalizing out with
  | nil => exact ⟨0, Nat.le_refl _, (List.append_nil out).symm, hout, nofun⟩
  | cons b raw ih =>
    rw [escapeLoop]
    split
    · rename_i hfull
      exact ⟨0, Nat.zero_le _, (List.append_nil out).symm, hout, fun _ => hfull⟩
    · rename_i hroom
      have hlen := length_escapeChar_le tbl nonascii b
      obtain ⟨k, hk, heq, hlt, hcut⟩ := ih (out ++ escapeChar tbl nonascii b)
        (by rw [List.length_append]; omega)
      refine ⟨k + 1, Nat.succ_le_succ hk, ?_, hlt, fun h => hcut (Nat.lt_of_succ_lt_succ h)⟩
      rw [heq, List.append_assoc, List.take_succ_cons, List.flatMap_cons]

/-! ## The pieces of a text -/

theorem sent_quoted (value : CStr) :
    tbl.sent (quotedStrings tbl value).flatten =
      '"' :: (tbl.sent (value.bytes.flatMap (escapeChar tbl false)) ++ ['"']) := by
  rw [quotedStrings, List.flatten_cons, List.flatten_append, ← List.flatMap_def,
    List.flatten_singleton, sent_append, sent_append, sent_lit tbl ['"'] rfl]
  rfl

theorem sent_key (key : CStr) (strs : List (List UInt8)) :
    tbl.sent (keyStrings tbl key ++ strs).flatten =
      '"' :: (tbl.sent key.bytes ++ '"' :: ':' :: tbl.sent strs.flatten) := by
  rw [keyStrings, List.flatten_append, sent_append]
  simp only [List.flatten_cons, List.flatten_nil, List.append_nil, sent_append,
    sent_lit tbl ['"'] rfl, sent_lit tbl ['"', ':'] rfl]
  simp

end Text

/-! ## The tree that the calls describe -/

section Describe
variable (tbl : JsonTable)

def JsonTable.stringValue : Option CStr → Json.Value
  | none => .null
  | some value => .str (tbl.unitsOf value.bytes)

/-- The value of a member's raw text, which is a number or a name. -/
def JsonTable.rawValue (raw : CStr) : Option Json.Value :=
  if (tbl.sent raw.bytes).all Json.isWord then Json.scalar (tbl.sent raw.bytes) else none

def describeMember (key : CStr) (v : Json.Value) : List Json.Frame → Option (List Json.Frame)
  | .obj ms none :: st => some (.obj (ms ++ [(tbl.unitsOf key.bytes, v)]) none :: st)
  | _ => none

/-- What a call does to the containers that are open; `none` where it has no place. -/
def describe (st : List Json.Frame) : JsonCall → Option (List Json.Frame)
  | .startArray =>
    match st with
    | [.doc none] => some [.arr [], .doc none]
    | _ => none
  | .startJsonObject =>
    match st with
    | [.doc none] => some [.obj [] none, .doc none]
    | .arr vs :: st => some (.obj [] none :: .arr vs :: st)
    | _ => none
  | .startJsonArrayKey key =>
    match st with
    | .obj ms none :: st => some (.arr [] :: .obj ms (some (tbl.unitsOf key.bytes)) :: st)
    | _ => none
  | .endArray =>
    match st with
    | .arr vs :: st => some (Json.put st (.arr vs))
    | _ => none
  | .endJsonObject =>
    match st with
    | .obj ms none :: st => some (Json.put st (.obj ms))
    | _ => none
  | .addJsonArrayString value =>
    match st with
    | .arr vs :: st => some (.arr (vs ++ [tbl.stringValue value]) :: st)
    | _ => none
  | .addJsonString key value | .addJsonStringEsc key value =>
    describeMember tbl key (tbl.stringValue value) st
  | .addJsonBool key value => describeMember tbl key (.bool value) st
  | .addJsonNumber key value => describeMember tbl key (.num value.toInt 0) st
  | .addJsonRaw key raw => (tbl.rawValue raw).bind fun v => describeMember tbl key v st

def describeAll : List Json.Frame → List JsonCall → Option (List Json.Frame)
  | st, [] => some st
  | st, call :: calls => (describe tbl st call).bind fun st => describeAll st calls

/-- The calls are well nested and describe `v`. -/
def DescribesTree (calls : List JsonCall) (v : Json.Value) : Prop :=
  describeAll tbl [.doc none] calls = some [.doc (some v)]

/-- The key of a call is shorter than the temp buffer and needs no escape. -/
def JsonCall.KeyOk : JsonCall → Prop
  | .startJsonArrayKey key | .addJsonRaw key _ | .addJsonString key _ | .addJsonStringEsc key _
  | .addJsonBool key _ | .addJsonNumber key _ =>
    key.bytes.length < JSON_TEMP_BUFFER_SIZE ∧ ∀ c ∈ tbl.sent key.bytes, Json.Plain c
  | _ => True

/-- What the call formats into the temp buffer fits there. -/
def JsonCall.Fits : JsonCall → Prop
  | .addJsonNumber key _ => key.bytes.length + 3 < JSON_TEMP_BUFFER_SIZE
  | _ => True

/-- No value is in the innermost container yet. -/
def fresh : List Json.Frame → Bool
  | .doc v :: _ => v.isNone
  | .arr vs :: _ => vs.isEmpty
  | .obj ms _ :: _ => ms.isEmpty
  | [] => false

/-- What a reader expects there. -/
def due (st : List Json.Frame) : Json.Mode :=
  match st with
  | .doc none :: _ => .value false
  | .arr [] :: _ => .value true
  | .obj [] _ :: _ => .key true
  | _ => .after

/-! ## One call -/

/-- The text so far leads a reader to the open containers, and `is_first` says whether the innermost
one is empty. -/
structure Writes (b : JsonBuilder) (st : List Json.Frame) : Prop where
  leads : Json.Leads Json.start (tbl.sent b.buffer) ⟨st, due st⟩
  first : b.isFirst = fresh st

/-- The comma in front of a value. -/
def comma (first : Bool) : List Char := if first then [] else [',']

theorem element_leads {vs : List Json.Value} {st : List Json.Frame} {text : List Char}
    {s : Json.State} (h : ∀ f, Json.Leads ⟨.arr vs :: st, .value f⟩ text s) :
    Json.Leads ⟨.arr vs :: st, due (.arr vs :: st)⟩ (comma (fresh (.arr vs :: st)) ++ text) s := by
  cases vs with
  | nil => exact h true
  | cons v vs => exact h false

theorem member_leads {ms : List (List Nat × Json.Value)} {st : List Json.Frame} {key : CStr}
    {text : List Char} {s : Json.State} (hk : ∀ c ∈ tbl.sent key.bytes, Json.Plain c)
    (h : Json.Leads ⟨.obj ms (some (tbl.unitsOf key.bytes)) :: st, .value false⟩ text s) :
    Json.Leads ⟨.obj ms none :: st, due (.obj ms none :: st)⟩
      (comma (fresh (.obj ms none :: st)) ++
        '"' :: (tbl.sent key.bytes ++ '"' :: ':' :: text)) s := by
  have hname : ∀ f, Json.Leads ⟨.obj ms none :: st, .key f⟩
      ('"' :: (tbl.sent key.bytes ++ '"' :: ':' :: text)) s := by
    intro f
    rw [Json.Leads, Json.feed_key (Json.Chars.of_plain hk), units_sent]
    exact h
  cases ms with
  | nil => exact hname true
  | cons m ms => exact hname false

theorem string_leads (value : Option CStr) (st : List Json.Frame) (f : Bool) :
    Json.Leads ⟨st, .value f⟩ (tbl.sent (valueStrings tbl value).flatten)
      ⟨Json.put st (tbl.stringValue value), .after⟩ := by
  cases value with
  | none =>
    rw [valueStrings, List.flatten_singleton, sent_lit tbl _ rfl]
    exact .scalar (List.all_eq_true.mp rfl) rfl st f
  | some value =>
    rw [valueStrings, sent_quoted, Json.Leads, Json.feed_string (escaped_chars tbl false _)]
    rfl

/-- The containers below the innermost one each wait for it. -/
def Nested : List Json.Frame → Prop
  | [.doc _] => True
  | .arr _ :: st => Json.Room st
  | .obj _ none :: st => Json.Room st
  | _ => False

theorem put_after (st : List Json.Frame) (h : Json.Room st) (v : Json.Value) :
    due (Json.put st v) = .after ∧ fresh (Json.put st v) = false ∧ Nested (Json.put st v) := by
  match st with
  | [.doc none] => exact ⟨rfl, rfl, trivial⟩
  | .arr [] :: st => exact ⟨rfl, rfl, h⟩
  | .arr (w :: vs) :: st => exact ⟨rfl, rfl, h⟩
  | .obj [] (some k) :: st => exact ⟨rfl, rfl, h⟩
  | .obj (m :: ms) (some k) :: st => exact ⟨rfl, rfl, h⟩

theorem fresh_of_due {st : List Json.Frame} (h : due st = .after) : fresh st = false := by
  match st with
  | [] | .doc (some _) :: _ | .arr (_ :: _) :: _ | .obj (_ :: _) _ :: _ => rfl

theorem parted_comma {st : List Json.Frame} (text : List Char) (h : due st = .after) :
    Json.Parted (comma (fresh st) ++ text) := by
  rw [fresh_of_due h]
  exact fun c hc => Option.some.inj hc ▸ rfl

/-- The strings of a call, without the comma. -/
def JsonCall.strings : JsonCall → List (List UInt8)
  | .startJsonObject => [tbl.lit ['{']]
  | .endJsonObject => [tbl.lit ['}']]
  | .startArray => [tbl.lit ['[']]
  | .endArray => [tbl.lit [']']]
  | .startJsonArrayKey key => [tbl.lit ['"'], key.bytes, tbl.lit ['"', ':', '[']]
  | .addJsonRaw key raw => keyStrings tbl key ++ [raw.bytes]
  | .addJsonString key value | .addJsonStringEsc key value =>
    keyStrings tbl key ++ valueStrings tbl value
  | .addJsonArrayString value => valueStrings tbl value
  | .addJsonBool key value =>
    keyStrings tbl key ++ [tbl.lit (if value then ['t', 'r', 'u', 'e'] else
      ['f', 'a', 'l', 's', 'e'])]
  | .addJsonNumber key value =>
    [temp (tbl.lit ['"'] ++ key.bytes ++ tbl.lit ['"', ':']),
      temp (tbl.lit (Json.decimal value.toInt))]

/-- A comma is due in front of what the call writes. -/
def JsonCall.separated : JsonCall → Bool
  | .endJsonObject | .startArray | .endArray => false
  | _ => true

/-- `is_first` behind the call. -/
def JsonCall.leavesFirst (first : Bool) : JsonCall → Bool
  | .startJsonObject | .startJsonArrayKey _ => true
  | .startArray => first
  | _ => false

theorem exec_eq (grant : Nat → Bool) (b : JsonBuilder) (call : JsonCall) :
    call.exec tbl grant b =
      emit tbl grant b call.separated (call.strings tbl) (call.leavesFirst b.isFirst) := by
  cases call <;> rfl

/-- What a call adds to the text sent. -/
def JsonCall.sent (first : Bool) (call : JsonCall) : List Char :=
  (if call.separated then comma first else []) ++ tbl.sent (call.strings tbl).flatten

/-- A call with a place leads a reader from the containers before it to those behind it. -/
structure Led (st st' : List Json.Frame) (call : JsonCall) : Prop where
  leads : Json.Leads ⟨st, due st⟩ (call.sent tbl (fresh st)) ⟨st', due st'⟩
  parted : due st = .after → Json.Parted (call.sent tbl (fresh st))
  first : call.leavesFirst (fresh st) = fresh st'
  nested : Nested st'

theorem member_led {call : JsonCall} {key : CStr} {v : Json.Value} {strs : List (List UInt8)}
    {st st' : List Json.Frame} (hstrs : call.strings tbl = keyStrings tbl key ++ strs)
    (hsep : call.separated = true) (hfirst : ∀ f, call.leavesFirst f = false)
    (hv : ∀ st, Json.Leads ⟨st, .value false⟩ (tbl.sent strs.flatten) ⟨Json.put st v, .after⟩)
    (hk : ∀ c ∈ tbl.sent key.bytes, Json.Plain c) (hn : Nested st)
    (hd : describeMember tbl key v st = some st') : Led tbl st st' call := by
  match st with
  | .obj ms none :: st =>
    obtain rfl := Option.some.inj hd
    have hsent : call.sent tbl (fresh (.obj ms none :: st)) =
        comma (fresh (.obj ms none :: st)) ++
          '"' :: (tbl.sent key.bytes ++ '"' :: ':' :: tbl.sent strs.flatten) := by
      rw [JsonCall.sent, hsep, if_pos rfl, hstrs, sent_key]
    obtain ⟨hdue, hfresh, hnest⟩ :=
      put_after (.obj ms (some (tbl.unitsOf key.bytes)) :: st) hn v
    refine ⟨hsent ▸ hdue ▸ member_leads tbl hk (hv _), fun h => hsent ▸ parted_comma _ h,
      (hfirst _).trans hfresh.symm, hnest⟩

theorem sent_one {c : Char} (h : isJsonChar c = true) : tbl.sent [tbl.lit [c]].flatten = [c] := by
  rw [List.flatten_singleton, sent_lit tbl _ (by simp only [List.all_cons, h, List.all_nil]; rfl)]

/-- A closing bracket ends the innermost container. -/
theorem close_led {call : JsonCall} {c : Char} {f : Json.Frame} {v : Json.Value}
    {st : List Json.Frame} (hstrs : call.sent tbl (fresh (f :: st)) = [c])
    (hc : Json.isWord c = false) (hfirst : call.leavesFirst (fresh (f :: st)) = false)
    (hstep : Json.step ⟨f :: st, due (f :: st)⟩ c = some ⟨Json.put st v, .after⟩)
    (hr : Json.Room st) : Led tbl (f :: st) (Json.put st v) call := by
  obtain ⟨hdue, hfresh, hnest⟩ := put_after st hr v
  refine ⟨?_, fun _ => hstrs ▸ fun d hd => Option.some.inj hd ▸ hc, hfirst.trans hfresh.symm, hnest⟩
  rw [hstrs, Json.Leads, Json.feed_cons, hstep, hdue]
  rfl

theorem isJsonChar_of_isDigit {c : Char} (h : c.isDigit = true) : isJsonChar c = true := by
  simp only [isJsonChar, Char.isAlphanum, h, Bool.or_true, Bool.true_or]

theorem decimal_all (n : Int) : (Json.decimal n).all isJsonChar = true := by
  have hdigits : ∀ c ∈ Nat.toDigits 10 n.natAbs, isJsonChar c = true := fun c hc =>
    isJsonChar_of_isDigit (Nat.isDigit_of_mem_toDigits (by decide) (by decide) hc)
  rw [List.all_eq_true, Json.decimal]
  split
  · exact List.forall_mem_cons.mpr ⟨rfl, hdigits⟩
  · exact hdigits

theorem length_decimal (n : Int32) : (Json.decimal n.toInt).length ≤ 11 := by
  have hlo := n.le_toInt
  have hhi := n.toInt_lt
  have hlen : (Nat.toDigits 10 n.toInt.natAbs).length ≤ 10 :=
    (Nat.length_toDigits_le_iff (by decide) (by decide)).mpr (by omega)
  rw [Json.decimal]
  split
  · exact Nat.succ_le_succ hlen
  · exact Nat.le_succ_of_le hlen

theorem temp_decimal (n : Int32) :
    tbl.sent (temp (tbl.lit (Json.decimal n.toInt))) = Json.decimal n.toInt := by
  have hlen : (tbl.lit (Json.decimal n.toInt)).length ≤ JSON_TEMP_BUFFER_SIZE - 1 := by
    rw [JsonTable.lit, List.length_map]
    exact Nat.le_trans (length_decimal n) (by decide)
  rw [temp, List.take_of_length_le hlen, sent_lit tbl _ (decimal_all _)]

/-- Where the key fits the temp buffer, the number is a member like any other. -/
theorem number_strings {key : CStr} {value : Int32}
    (hf : key.bytes.length + 3 < JSON_TEMP_BUFFER_SIZE) (first : Bool) :
    (JsonCall.addJsonNumber key value).sent tbl first =
      comma first ++ '"' :: (tbl.sent key.bytes ++ '"' :: ':' :: Json.decimal value.toInt) := by
  have hlen : (tbl.lit ['"'] ++ key.bytes ++ tbl.lit ['"', ':']).length ≤
      JSON_TEMP_BUFFER_SIZE - 1 := by
    simp only [List.length_append, JsonTable.lit, List.length_map, List.length_cons,
      List.length_nil]
    omega
  have hsep : (JsonCall.addJsonNumber key value).separated = true := rfl
  rw [JsonCall.sent, JsonCall.strings, List.flatten_cons, List.flatten_singleton, sent_append,
    temp_decimal, temp, List.take_of_length_le hlen, sent_append, sent_append, sent_lit tbl _ rfl,
    sent_lit tbl _ rfl, if_pos hsep]
  simp

theorem call_led {call : JsonCall} {st st' : List Json.Frame} (hn : Nested st)
    (hd : describe tbl st call = some st') (hk : call.KeyOk tbl) (hf : call.Fits) :
    Led tbl st st' call := by
  cases call with
  | startArray =>
    match st with
    | [.doc none] =>
      obtain rfl := Option.some.inj hd
      have hsent : JsonCall.startArray.sent tbl true = ['['] := sent_one tbl rfl
      exact ⟨hsent ▸ rfl, nofun, rfl, trivial⟩
  | startJsonObject =>
    have hsent : ∀ first, JsonCall.startJsonObject.sent tbl first = comma first ++ ['{'] :=
      fun first => congrArg (comma first ++ ·) (sent_one tbl rfl)
    match st with
    | [.doc none] =>
      obtain rfl := Option.some.inj hd
      exact ⟨hsent true ▸ rfl, nofun, rfl, trivial⟩
    | .arr vs :: st =>
      obtain rfl := Option.some.inj hd
      exact ⟨hsent _ ▸ element_leads fun f => rfl, fun h => hsent _ ▸ parted_comma _ h, rfl, hn⟩
  | startJsonArrayKey key =>
    match st with
    | .obj ms none :: st =>
      obtain rfl := Option.some.inj hd
      have hsent : ∀ first, (JsonCall.startJsonArrayKey key).sent tbl first =
          comma first ++ '"' :: (tbl.sent key.bytes ++ '"' :: ':' :: ['[']) := by
        intro first
        have hsep : (JsonCall.startJsonArrayKey key).separated = true := rfl
        rw [JsonCall.sent, JsonCall.strings, if_pos hsep]
        simp only [List.flatten_cons, List.flatten_nil, List.append_nil, sent_append,
          sent_lit tbl ['"'] rfl, sent_lit tbl ['"', ':', '['] rfl]
        rfl
      exact ⟨hsent _ ▸ member_leads tbl hk.2 rfl, fun h => hsent _ ▸ parted_comma _ h, rfl, hn⟩
  | endArray =>
    match st with
    | .arr vs :: st =>
      obtain rfl := Option.some.inj hd
      refine close_led tbl (c := ']') (sent_one tbl rfl) rfl rfl ?_ hn
      cases vs <;> rfl
  | endJsonObject =>
    match st with
    | .obj ms none :: st =>
      obtain rfl := Option.some.inj hd
      refine close_led tbl (c := '}') (sent_one tbl rfl) rfl rfl ?_ hn
      cases ms <;> rfl
  | addJsonArrayString value =>
    match st with
    | .arr vs :: st =>
      obtain rfl := Option.some.inj hd
      obtain ⟨hdue, hfresh, hnest⟩ := put_after (.arr vs :: st) hn (tbl.stringValue value)
      exact ⟨hdue ▸ element_leads fun f => string_leads tbl value _ f,
        fun h => parted_comma _ h, hfresh.symm, hnest⟩
  | addJsonString key value =>
    exact member_led tbl rfl rfl (fun _ => rfl) (fun st => string_leads tbl value st false)
      hk.2 hn hd
  | addJsonStringEsc key value =>
    exact member_led tbl rfl rfl (fun _ => rfl) (fun st => string_leads tbl value st false)
      hk.2 hn hd
  | addJsonBool key value =>
    refine member_led tbl rfl rfl (fun _ => rfl) (fun st => ?_) hk.2 hn hd
    cases value with
    | false =>
      rw [List.flatten_singleton, if_neg Bool.false_ne_true, sent_lit tbl _ rfl]
      exact .scalar (List.all_eq_true.mp rfl) rfl st false
    | true =>
      rw [List.flatten_singleton, if_pos rfl, sent_lit tbl _ rfl]
      exact .scalar (List.all_eq_true.mp rfl) rfl st false
  | addJsonRaw key raw =>
    obtain ⟨v, hv, hd⟩ := Option.bind_eq_some_iff.mp hd
    rw [JsonTable.rawValue] at hv
    split at hv
    · rename_i hword
      refine member_led tbl rfl rfl (fun _ => rfl) (fun st => ?_) hk.2 hn hd
      rw [List.flatten_singleton]
      exact .scalar (List.all_eq_true.mp hword) hv st false
    · exact nomatch hv
  | addJsonNumber key value =>
    match st with
    | .obj ms none :: st =>
      obtain rfl := Option.some.inj hd
      obtain ⟨hdue, hfresh, hnest⟩ :=
        put_after (.obj ms (some (tbl.unitsOf key.bytes)) :: st) hn (.num value.toInt 0)
      refine ⟨number_strings tbl hf _ ▸ hdue ▸ member_leads tbl hk.2 ?_,
        fun h => number_strings tbl hf _ ▸ parted_comma _ h, hfresh.symm, hnest⟩
      exact .scalar (Json.decimal_word _) (Json.scalar_decimal _) _ false

end Describe

end Mvsmf
