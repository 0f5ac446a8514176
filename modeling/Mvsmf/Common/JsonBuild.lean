import Mvsmf.Common.CodePage
import Mvsmf.Common.JsonDocument

/-!
# Runs of the JSON builder

A call returns -1 exactly where storage it asked for was refused, and the text with its terminator
is never longer than the buffer. A document whose calls all succeeded is read as the tree they
describe, unless the key of a number is too long for the temp buffer: then never.
-/

namespace Mvsmf

/-! ## Storage -/

section Storage
variable (tbl : JsonTable) (grant : Nat → Bool)

/-- The text and its terminator are within the buffer. -/
def JsonBuilder.Sound (b : JsonBuilder) : Prop := b.buffer.length + 1 ≤ b.capacity

/-- What was asked for between the two was met. -/
def Granted (b b' : JsonBuilder) : Prop := ∀ i, b.asked ≤ i → i < b'.asked → grant i = true

/-- A text was appended, or storage for it refused. -/
def Appended (b : JsonBuilder) (text : List UInt8) (first : Bool) : Returned → Prop
  | .ok b' => b'.buffer = b.buffer ++ text ∧ b'.isFirst = first ∧ b'.Sound ∧ b.asked ≤ b'.asked ∧
      Granted grant b b'
  | .error b' => b'.Sound ∧ b.asked ≤ b'.asked ∧ ¬ Granted grant b b'

theorem appendString_appended {b : JsonBuilder} (hb : b.Sound) (str : List UInt8) :
    Appended grant b str b.isFirst (appendString grant b str) := by
  rw [appendString, ensureCapacity]
  split
  · -- the buffer grows, to twice its size or to what is needed and some more
    simp only
    by_cases hg : grant b.asked = true
    · rw [if_pos hg]
      refine ⟨rfl, rfl, ?_, Nat.le_succ _, fun i hi hlt => ?_⟩
      · simp only [JsonBuilder.Sound, List.length_append]
        split <;> omega
      · exact (Nat.le_antisymm (Nat.le_of_lt_succ hlt) hi) ▸ hg
    · rw [if_neg hg]
      exact ⟨hb, Nat.le_succ _, fun hall => hg (hall _ (Nat.le_refl _) (Nat.lt_succ_self _))⟩
  · rename_i hroom
    refine ⟨rfl, rfl, ?_, Nat.le_refl _, fun i hi hlt => absurd hlt (Nat.not_lt.mpr hi)⟩
    simp only [JsonBuilder.Sound, List.length_append]
    omega

variable {grant} in
theorem Granted.trans {b b' b'' : JsonBuilder} (h : Granted grant b b')
    (h' : Granted grant b' b'') : Granted grant b b'' := by
  intro i hi hlt
  rcases Nat.lt_or_ge i b'.asked with hi' | hi'
  · exact h i hi hi'
  · exact h' i hi' hlt

theorem appendStrings_appended {b : JsonBuilder} (hb : b.Sound) (strs : List (List UInt8)) :
    Appended grant b strs.flatten b.isFirst (appendStrings grant b strs) := by
  induction strs generalizing b with
  | nil =>
    exact ⟨(List.append_nil _).symm, rfl, hb, Nat.le_refl _,
      fun i hi hlt => absurd hlt (Nat.not_lt.mpr hi)⟩
  | cons str strs ih =>
    have hstr := appendString_appended grant hb str
    rw [appendStrings, List.flatten_cons]
    cases hr : appendString grant b str with
    | error b₁ =>
      rw [hr] at hstr
      exact hstr
    | ok b₁ =>
      rw [hr] at hstr
      obtain ⟨hbuf, hfirst, hsound, hasked, hgrant⟩ := hstr
      have hrest := ih hsound
      change Appended grant b _ _ (appendStrings grant b₁ strs)
      cases hr' : appendStrings grant b₁ strs with
      | error b₂ =>
        rw [hr'] at hrest
        obtain ⟨hsound', hasked', hnot⟩ := hrest
        exact ⟨hsound', Nat.le_trans hasked hasked',
          fun hall => hnot fun i hi => hall i (Nat.le_trans hasked hi)⟩
      | ok b₂ =>
        rw [hr'] at hrest
        obtain ⟨hbuf', hfirst', hsound', hasked', hgrant'⟩ := hrest
        refine ⟨?_, hfirst'.trans hfirst, hsound', Nat.le_trans hasked hasked',
          hgrant.trans hgrant'⟩
        rw [hbuf', hbuf, List.append_assoc]

/-- What a call adds to the buffer. -/
def JsonCall.text (first : Bool) (call : JsonCall) : List UInt8 :=
  (if call.separated && !first then tbl.lit [','] else []) ++ (call.strings tbl).flatten

theorem exec_appended {b : JsonBuilder} (hb : b.Sound) (call : JsonCall) :
    Appended grant b (call.text tbl b.isFirst) (call.leavesFirst b.isFirst)
      (call.exec tbl grant b) := by
  have htext : ((if call.separated && !b.isFirst then [tbl.lit [',']] else []) ++
      call.strings tbl).flatten = call.text tbl b.isFirst := by
    rw [List.flatten_append, JsonCall.text]
    split
    · rw [List.flatten_singleton]
    · rfl
  have hall := appendStrings_appended grant hb
    ((if call.separated && !b.isFirst then [tbl.lit [',']] else []) ++ call.strings tbl)
  rw [exec_eq, emit, ← htext]
  cases hr : appendStrings grant b
      ((if call.separated && !b.isFirst then [tbl.lit [',']] else []) ++ call.strings tbl) with
  | error b' =>
    rw [hr] at hall
    exact hall
  | ok b' =>
    rw [hr] at hall
    obtain ⟨hbuf, -, hsound, hasked, hgrant⟩ := hall
    exact ⟨hbuf, rfl, hsound, hasked, hgrant⟩

theorem exec_sound {b : JsonBuilder} (hb : b.Sound) (call : JsonCall) :
    (call.exec tbl grant b).builder.Sound := by
  have h := exec_appended tbl grant hb call
  cases hr : call.exec tbl grant b with
  | ok b' =>
    rw [hr] at h
    exact h.2.2.1
  | error b' =>
    rw [hr] at h
    exact h.1

theorem runCalls_sound {b : JsonBuilder} (hb : b.Sound) (calls : List JsonCall) :
    (runCalls tbl grant b calls).Sound := by
  induction calls generalizing b with
  | nil => exact hb
  | cons call calls ih => exact ih (exec_sound tbl grant hb call)

theorem createJsonBuilder_sound {b : JsonBuilder} (h : createJsonBuilder grant = some b) :
    b.Sound ∧ b = ⟨true, [], JSON_INITIAL_BUFFER_SIZE, 2⟩ := by
  rw [createJsonBuilder] at h
  split at h
  · obtain rfl := Option.some.inj h
    exact ⟨Nat.succ_le_of_lt (by decide), rfl⟩
  · exact nomatch h

/-- Storage that is refused makes the call fail, and nothing else does. -/
theorem exec_error_iff {b : JsonBuilder} (hb : b.Sound) (call : JsonCall) :
    (∃ b', call.exec tbl grant b = .error b') ↔
      ∃ i, b.asked ≤ i ∧ i < (call.exec tbl grant b).builder.asked ∧ grant i = false := by
  have h := exec_appended tbl grant hb call
  cases hr : call.exec tbl grant b with
  | ok b' =>
    rw [hr] at h
    refine ⟨nofun, fun ⟨i, hi, hlt, hg⟩ => ?_⟩
    exact absurd ((h.2.2.2.2 i hi hlt).symm.trans hg) (by decide)
  | error b' =>
    rw [hr] at h
    refine ⟨fun _ => ?_, fun _ => ⟨b', rfl⟩⟩
    obtain ⟨-, -, hnot⟩ := h
    simp only [Granted, not_forall, Bool.not_eq_true] at hnot
    obtain ⟨i, hi, hlt, hg⟩ := hnot
    exact ⟨i, hi, hlt, hg⟩

end Storage

/-! ## Whole documents -/

section Document
variable (tbl : JsonTable) (grant : Nat → Bool)

theorem sent_text (first : Bool) (call : JsonCall) :
    tbl.sent (call.text tbl first) = call.sent tbl first := by
  rw [JsonCall.text, sent_append, JsonCall.sent]
  cases call.separated <;> cases first <;> simp [comma, sent_lit tbl [','] rfl]
  all_goals rfl

/-- A call with a place that succeeds keeps the reader in step. -/
theorem exec_writes {b b' : JsonBuilder} {call : JsonCall} {st st' : List Json.Frame}
    (hb : b.Sound) (hw : Writes tbl b st) (hled : Led tbl st st' call)
    (he : call.exec tbl grant b = .ok b') : b'.Sound ∧ Writes tbl b' st' := by
  have happ := exec_appended tbl grant hb call
  rw [he, hw.first] at happ
  obtain ⟨hbuf, hfirst, hsound, -, -⟩ := happ
  refine ⟨hsound, ?_, hfirst.trans hled.first⟩
  rw [hbuf, sent_append, sent_text]
  exact hw.leads.append hled.parted hled.leads

theorem build_writes {calls : List JsonCall} {b b' : JsonBuilder} {st st' : List Json.Frame}
    (hb : b.Sound) (hn : Nested st) (hw : Writes tbl b st)
    (hd : describeAll tbl st calls = some st') (hk : ∀ call ∈ calls, call.KeyOk tbl)
    (hf : ∀ call ∈ calls, call.Fits) (he : buildCalls tbl grant b calls = some b') :
    Writes tbl b' st' := by
  induction calls generalizing b st with
  | nil =>
    obtain rfl := Option.some.inj hd
    obtain rfl := Option.some.inj he
    exact hw
  | cons call calls ih =>
    obtain ⟨st₁, hcall, hd⟩ := Option.bind_eq_some_iff.mp hd
    obtain ⟨hkc, hk⟩ := List.forall_mem_cons.mp hk
    obtain ⟨hfc, hf⟩ := List.forall_mem_cons.mp hf
    have hled := call_led tbl hn hcall hkc hfc
    rw [buildCalls] at he
    cases hr : call.exec tbl grant b with
    | error b₁ => rw [hr] at he; exact nomatch he
    | ok b₁ =>
      rw [hr] at he
      obtain ⟨hb₁, hw₁⟩ := exec_writes tbl grant hb hw hled hr
      exact ih hb₁ hled.nested hw₁ hd hk hf he

/-! ## The terminator -/

theorem zero_notMem_lit (cs : List Char) (h : cs.all isJsonChar = true) : 0 ∉ tbl.lit cs := by
  intro hmem
  obtain ⟨c, hc, h0⟩ := List.mem_map.mp hmem
  exact tbl.notNul c (List.all_eq_true.mp h c hc) h0

theorem zero_notMem_escapeChar {b : UInt8} (hb : b ≠ 0) (nonascii : Bool) :
    0 ∉ escapeChar tbl nonascii b := by
  have hlt := (tbl.translate b).toNat_lt
  have h₁ := isJsonChar_upperHex ((tbl.translate b).toNat / 16) (by omega)
  have h₂ := isJsonChar_upperHex ((tbl.translate b).toNat % 16) (by omega)
  simp only [escapeChar]
  repeat' split
  all_goals first
    | exact zero_notMem_lit tbl _ rfl
    | exact zero_notMem_lit tbl _ (by simp only [List.all_cons, h₁, h₂, List.all_nil]; rfl)
    | exact fun h => hb (List.mem_singleton.mp h).symm

theorem zero_notMem_quoted (value : CStr) : 0 ∉ (quotedStrings tbl value).flatten := by
  have hq : 0 ∉ tbl.lit ['"'] := zero_notMem_lit tbl _ rfl
  have hesc : 0 ∉ (value.bytes.map (escapeChar tbl false)).flatten := by
    rw [List.mem_flatten]
    rintro ⟨l, hl, h0⟩
    obtain ⟨b, hb, rfl⟩ := List.mem_map.mp hl
    exact zero_notMem_escapeChar tbl (fun h => value.noNul (h ▸ hb)) false h0
  simp only [quotedStrings, List.flatten_cons, List.flatten_append, List.flatten_nil,
    List.append_nil, List.mem_append, hq, hesc, or_self, not_false_eq_true]

theorem zero_notMem_strings (call : JsonCall) : 0 ∉ (call.strings tbl).flatten := by
  have hkey : ∀ key : CStr, 0 ∉ (keyStrings tbl key).flatten := by
    intro key
    simp only [keyStrings, List.flatten_cons, List.flatten_nil, List.append_nil, List.mem_append,
      zero_notMem_lit tbl ['"'] rfl, zero_notMem_lit tbl ['"', ':'] rfl, key.noNul,
      or_self, not_false_eq_true]
  have hvalue : ∀ value, 0 ∉ (valueStrings tbl value).flatten := by
    rintro (_ | value)
    · rw [valueStrings, List.flatten_singleton]
      exact zero_notMem_lit tbl _ rfl
    · exact zero_notMem_quoted tbl value
  have htemp : ∀ {bs : List UInt8}, 0 ∉ bs → 0 ∉ temp bs := fun h h0 => h (List.mem_of_mem_take h0)
  cases call with
  | startJsonObject | endJsonObject | startArray | endArray =>
    rw [JsonCall.strings, List.flatten_singleton]
    exact zero_notMem_lit tbl _ rfl
  | startJsonArrayKey key =>
    simp only [JsonCall.strings, List.flatten_cons, List.flatten_nil, List.append_nil,
      List.mem_append, zero_notMem_lit tbl ['"'] rfl,
      zero_notMem_lit tbl ['"', ':', '['] rfl, key.noNul, or_self, not_false_eq_true]
  | addJsonRaw key raw =>
    rw [JsonCall.strings, List.flatten_append, List.mem_append, List.flatten_singleton]
    exact not_or.mpr ⟨hkey key, raw.noNul⟩
  | addJsonString key value | addJsonStringEsc key value =>
    rw [JsonCall.strings, List.flatten_append, List.mem_append]
    exact not_or.mpr ⟨hkey key, hvalue value⟩
  | addJsonArrayString value => exact hvalue value
  | addJsonBool key value =>
    rw [JsonCall.strings, List.flatten_append, List.mem_append, List.flatten_singleton]
    refine not_or.mpr ⟨hkey key, zero_notMem_lit tbl _ ?_⟩
    cases value <;> rfl
  | addJsonNumber key value =>
    rw [JsonCall.strings, List.flatten_cons, List.flatten_singleton, List.mem_append]
    refine not_or.mpr ⟨htemp ?_, htemp (zero_notMem_lit tbl _ (decimal_all _))⟩
    simp only [List.mem_append, zero_notMem_lit tbl ['"'] rfl,
      zero_notMem_lit tbl ['"', ':'] rfl, key.noNul, or_self, not_false_eq_true]

/-- The calls only append, and no NUL. -/
theorem build_appends {calls : List JsonCall} {b b' : JsonBuilder} (hb : b.Sound)
    (he : buildCalls tbl grant b calls = some b') :
    b.buffer <+: b'.buffer ∧ (0 ∉ b.buffer → 0 ∉ b'.buffer) := by
  induction calls generalizing b with
  | nil =>
    obtain rfl := Option.some.inj he
    exact ⟨List.prefix_rfl, id⟩
  | cons call calls ih =>
    have happ := exec_appended tbl grant hb call
    rw [buildCalls] at he
    cases hr : call.exec tbl grant b with
    | error b₁ => rw [hr] at he; exact nomatch he
    | ok b₁ =>
      rw [hr] at he happ
      obtain ⟨hbuf, -, hb₁, -, -⟩ := happ
      have h0₁ : 0 ∉ b.buffer → 0 ∉ b₁.buffer := by
        intro h0
        rw [hbuf, List.mem_append, JsonCall.text, List.mem_append]
        refine not_or.mpr ⟨h0, not_or.mpr ⟨?_, zero_notMem_strings tbl call⟩⟩
        split
        · exact zero_notMem_lit tbl _ rfl
        · exact nofun
      obtain ⟨hpre, h0'⟩ := ih hb₁ he
      exact ⟨(hbuf ▸ List.prefix_append _ _ : b.buffer <+: b₁.buffer).trans hpre,
        fun h0 => h0' (h0₁ h0)⟩

theorem getJsonString_eq {b : JsonBuilder} (h : 0 ∉ b.buffer) : getJsonString b = b.buffer :=
  List.takeWhile_eq_self_iff.mpr fun _ hc => decide_eq_true fun h0 => h (h0 ▸ hc)

/-! ## Keys too long for the temp buffer -/

theorem describe_within {call : JsonCall} {st st' : List Json.Frame} {v : Json.Value}
    (hd : describe tbl st call = some st') (h : Json.Within st' v) : Json.Within st v := by
  have hmember : ∀ {key : CStr} {w : Json.Value}, describeMember tbl key w st = some st' →
      Json.Within st v := by
    intro key w hd
    match st with
    | .obj ms none :: st =>
      obtain rfl := Option.some.inj hd
      exact Json.within_named (k := tbl.unitsOf key.bytes)
        (Json.within_put (t := .obj ms (some _) :: st) h)
  cases call with
  | startArray =>
    match st with
    | [.doc none] => exact .due v
  | startJsonObject =>
    match st with
    | [.doc none] => exact .due v
    | .arr vs :: st =>
      obtain rfl := Option.some.inj hd
      cases h with
      | obj more h => exact Json.within_put h
  | startJsonArrayKey key =>
    match st with
    | .obj ms none :: st =>
      obtain rfl := Option.some.inj hd
      cases h with
      | arr more h =>
        exact Json.within_named (k := tbl.unitsOf key.bytes)
          (Json.within_put (t := .obj ms (some _) :: st) h)
  | endArray =>
    match st with
    | .arr vs :: st =>
      obtain rfl := Option.some.inj hd
      exact .arr [] ((List.append_nil vs).symm ▸ h)
  | endJsonObject =>
    match st with
    | .obj ms none :: st =>
      obtain rfl := Option.some.inj hd
      exact .obj [] ((List.append_nil ms).symm ▸ h)
  | addJsonArrayString value =>
    match st with
    | .arr vs :: st =>
      obtain rfl := Option.some.inj hd
      exact Json.within_put (t := .arr vs :: st) h
  | addJsonString | addJsonStringEsc | addJsonBool | addJsonNumber => exact hmember hd
  | addJsonRaw =>
    obtain ⟨w, -, hd⟩ := Option.bind_eq_some_iff.mp hd
    exact hmember hd

theorem describeAll_within {calls : List JsonCall} {st : List Json.Frame} {v : Json.Value}
    (hd : describeAll tbl st calls = some [.doc (some v)]) : Json.Within st v := by
  induction calls generalizing st with
  | nil =>
    obtain rfl := Option.some.inj hd
    exact .done v
  | cons call calls ih =>
    obtain ⟨st₁, hcall, hd⟩ := Option.bind_eq_some_iff.mp hd
    exact describe_within tbl hcall (ih hd)

/-- Cut behind 255 characters, a name that needs more does not end, or has no colon. -/
theorem cut_key_unread {K : List Char} (hK : ∀ c ∈ K, Json.Plain c) (hlo : 253 ≤ K.length)
    (hhi : K.length < 256) {ms : List (List Nat × Json.Value)} {st : List Json.Frame}
    {v : Json.Value} (hr : Json.Room st) (hw : Json.Within (.obj ms (some (Json.units K)) :: st) v)
    (n : Int) {c : Char} (hc : Json.Plain c) (t : List Char) (f : Bool) :
    Json.read ⟨.obj ms none :: st, .key f⟩
      ('"' :: (K ++ ['"', ':']).take 254 ++ (Json.decimal n ++ c :: t)) ≠ some v := by
  intro h
  rcases Nat.lt_or_ge 253 K.length with hlen | hlen
  · -- the digits, and what follows them, are part of the name
    have hP : ∀ d ∈ K.take 254 ++ (Json.decimal n ++ [c]), Json.Plain d := by
      intro d hd
      rcases List.mem_append.mp hd with hd | hd
      · exact hK d (List.mem_of_mem_take hd)
      · rcases List.mem_append.mp hd with hd | hd
        · exact Json.plain_of_isWord (Json.decimal_word n d hd)
        · exact List.mem_singleton.mp hd ▸ hc
    have htext : '"' :: (K ++ ['"', ':']).take 254 ++ (Json.decimal n ++ c :: t) =
        '"' :: (K.take 254 ++ (Json.decimal n ++ [c])) ++ t := by
      rw [List.take_append_of_le_length hlen]
      simp
    have hfeed : Json.feed ⟨.obj ms none :: st, .key f⟩
        ('"' :: (K.take 254 ++ (Json.decimal n ++ [c]))) =
          some ⟨.obj ms none :: st,
            .chars true (Json.units (K.take 254 ++ (Json.decimal n ++ [c])))⟩ :=
      (Json.Chars.of_plain hP).feed _ true []
    rw [htext, Json.read_append, hfeed] at h
    obtain ⟨more, hwithin⟩ := Json.read_within h
    have hname := congrArg List.length (hw.name_inj hr hwithin)
    have := List.length_pos_of_ne_nil (Json.decimal_ne_nil n)
    simp only [Json.units, List.length_append, List.length_map, List.length_take,
      List.length_cons, List.length_nil] at hname
    omega
  · -- the name ends, and a digit comes for the colon
    have hK253 : K.length = 253 := Nat.le_antisymm hlen hlo
    obtain ⟨d, ds, hd⟩ := List.exists_cons_of_ne_nil (Json.decimal_ne_nil n)
    have hword := Json.decimal_word n d (hd ▸ List.mem_cons_self)
    have htext : '"' :: (K ++ ['"', ':']).take 254 ++ (Json.decimal n ++ c :: t) =
        '"' :: (K ++ ['"']) ++ d :: (ds ++ c :: t) := by
      rw [List.take_append, hK253, hd, List.take_of_length_le (Nat.le_trans hlen (by decide))]
      rfl
    have hfeed : Json.feed ⟨.obj ms none :: st, .key f⟩ ('"' :: (K ++ ['"'])) =
        some ⟨.obj ms (some (Json.units K)) :: st, .colon⟩ := by
      change Json.feed ⟨.obj ms none :: st, .chars true []⟩ (K ++ ['"']) = _
      rw [Json.feed_append, (Json.Chars.of_plain hK).feed]
      rfl
    have hstep : Json.step ⟨.obj ms (some (Json.units K)) :: st, .colon⟩ d = none := by
      simp only [Json.step, Json.isSpace_of_isWord hword, Bool.false_eq_true, if_false,
        if_neg (Json.isWord_ne hword (d := ':') rfl)]
    rw [htext, Json.read_append, hfeed, Option.bind_some, Json.read_cons, hstep] at h
    cases h

theorem sent_cut_number (key : CStr) (value : Int32) (first : Bool) :
    (JsonCall.addJsonNumber key value).sent tbl first =
      comma first ++ ('"' :: (tbl.sent key.bytes ++ ['"', ':']).take 254 ++
        Json.decimal value.toInt) := by
  have hsep : (JsonCall.addJsonNumber key value).separated = true := rfl
  have htemp : tbl.sent (temp (tbl.lit ['"'] ++ key.bytes ++ tbl.lit ['"', ':'])) =
      '"' :: (tbl.sent key.bytes ++ ['"', ':']).take 254 := by
    rw [temp, JsonTable.sent, List.map_take]
    change (tbl.sent _).take 255 = _
    rw [sent_append, sent_append, sent_lit tbl _ rfl, sent_lit tbl _ rfl]
    rfl
  rw [JsonCall.sent, JsonCall.strings, List.flatten_cons, List.flatten_singleton, sent_append,
    temp_decimal, htemp, if_pos hsep]

/-- What follows a member begins with a comma or a bracket. -/
theorem next_plain {call : JsonCall} {ms : List (List Nat × Json.Value)}
    {st st' : List Json.Frame} (hd : describe tbl (.obj ms none :: st) call = some st') :
    ∃ c t, Json.Plain c ∧ call.sent tbl false = c :: t := by
  cases call with
  | endJsonObject => exact ⟨'}', [], by decide, sent_one tbl rfl⟩
  | startJsonObject | startArray | endArray | addJsonArrayString => exact nomatch hd
  | _ => exact ⟨',', _, by decide, rfl⟩

theorem number_cut {b b₁ b' : JsonBuilder} {key : CStr} {value : Int32}
    {ms : List (List Nat × Json.Value)} {st : List Json.Frame} {calls : List JsonCall}
    {v : Json.Value} (hb : b.Sound) (hn : Nested (.obj ms none :: st))
    (hw : Writes tbl b (.obj ms none :: st)) (hk : (JsonCall.addJsonNumber key value).KeyOk tbl)
    (hf : ¬ (JsonCall.addJsonNumber key value).Fits)
    (hd : describeAll tbl (.obj (ms ++ [(tbl.unitsOf key.bytes, .num value.toInt 0)]) none :: st)
      calls = some [.doc (some v)])
    (hr : (JsonCall.addJsonNumber key value).exec tbl grant b = .ok b₁)
    (he : buildCalls tbl grant b₁ calls = some b') : Json.parse (tbl.sent b'.buffer) ≠ some v := by
  cases calls with
  | nil => exact nomatch hd
  | cons call calls =>
    have hwithin : Json.Within (.obj ms (some (tbl.unitsOf key.bytes)) :: st) v :=
      Json.within_put (t := .obj ms (some _) :: st) (describeAll_within tbl hd)
    obtain ⟨st₂, hcall, -⟩ := Option.bind_eq_some_iff.mp hd
    obtain ⟨c, t, hc, hsent⟩ := next_plain tbl hcall
    have happ := exec_appended tbl grant hb (.addJsonNumber key value)
    rw [hr, hw.first] at happ
    obtain ⟨hbuf, hfirst, hb₁, -, -⟩ := happ
    rw [buildCalls] at he
    cases hr₂ : call.exec tbl grant b₁ with
    | error b₂ => rw [hr₂] at he; exact nomatch he
    | ok b₂ =>
      have happ₂ := exec_appended tbl grant hb₁ call
      rw [hr₂] at he happ₂
      obtain ⟨hbuf₂, -, hb₂, -, -⟩ := happ₂
      obtain ⟨more, hmore⟩ := (build_appends tbl grant hb₂ he).1
      have hnot : b₁.isFirst = false := hfirst
      have hlo : 253 ≤ (tbl.sent key.bytes).length := by
        rw [JsonTable.sent, List.length_map]
        exact Nat.le_of_add_le_add_right (b := 3) (Nat.not_lt.mp hf)
      have hhi : (tbl.sent key.bytes).length < 256 := by
        rw [JsonTable.sent, List.length_map]
        exact hk.1
      have htext : tbl.sent b'.buffer = tbl.sent b.buffer ++ (comma (fresh (.obj ms none :: st)) ++
          ('"' :: (tbl.sent key.bytes ++ ['"', ':']).take 254 ++
            (Json.decimal value.toInt ++ c :: (t ++ tbl.sent more)))) := by
        rw [← hmore, hbuf₂, hbuf, sent_append, sent_append, sent_append, sent_text, sent_text, hnot,
          hsent, sent_cut_number]
        simp
      rw [Json.parse, htext, hw.leads.read_append fun hdue => parted_comma _ hdue]
      rw [← units_sent] at hwithin
      have hcut := cut_key_unread hk.2 hlo hhi hn hwithin value.toInt hc (t ++ tbl.sent more)
      cases ms with
      | nil => exact hcut true
      | cons m ms => exact hcut false

/-- A document with a key too long for the temp buffer is not read as its tree. -/
theorem build_misses {calls : List JsonCall} {b b' : JsonBuilder} {st : List Json.Frame}
    {v : Json.Value} (hb : b.Sound) (hn : Nested st) (hw : Writes tbl b st)
    (hd : describeAll tbl st calls = some [.doc (some v)]) (hk : ∀ call ∈ calls, call.KeyOk tbl)
    (hf : ¬ ∀ call ∈ calls, call.Fits) (he : buildCalls tbl grant b calls = some b') :
    Json.parse (tbl.sent b'.buffer) ≠ some v := by
  induction calls generalizing b st with
  | nil => exact absurd (fun _ h => nomatch h) hf
  | cons call calls ih =>
    obtain ⟨st₁, hcall, hd⟩ := Option.bind_eq_some_iff.mp hd
    obtain ⟨hkc, hk⟩ := List.forall_mem_cons.mp hk
    rw [buildCalls] at he
    cases hr : call.exec tbl grant b with
    | error b₁ => rw [hr] at he; exact nomatch he
    | ok b₁ =>
      rw [hr] at he
      by_cases hfc : call.Fits
      · have hled := call_led tbl hn hcall hkc hfc
        obtain ⟨hb₁, hw₁⟩ := exec_writes tbl grant hb hw hled hr
        exact ih hb₁ hled.nested hw₁ hd hk (fun h => hf (List.forall_mem_cons.mpr ⟨hfc, h⟩)) he
      · cases call with
        | addJsonNumber key value =>
          match st with
          | .obj ms none :: st =>
            obtain rfl := Option.some.inj hcall
            exact number_cut tbl grant hb hn hw hkc hfc hd hr he
        | _ => exact absurd trivial hfc

/-- Where all storage is granted, every call succeeds. -/
theorem build_granted {b : JsonBuilder} (hb : b.Sound) (calls : List JsonCall)
    (hg : ∀ i, grant i = true) : ∃ b', buildCalls tbl grant b calls = some b' := by
  induction calls generalizing b with
  | nil => exact ⟨b, rfl⟩
  | cons call calls ih =>
    have happ := exec_appended tbl grant hb call
    rw [buildCalls]
    cases hr : call.exec tbl grant b with
    | error b₁ =>
      rw [hr] at happ
      exact absurd (fun i _ _ => hg i) happ.2.2
    | ok b₁ =>
      rw [hr] at happ
      exact ih happ.2.2.1

/-! ## The whole law -/

/-- The builder's calls write `v`: no text outgrows its buffer, a call fails exactly where storage
is refused, and what calls that all succeeded leave is read as `v` by the client. -/
structure BuilderLaw (calls : List JsonCall) (v : Json.Value) (b : JsonBuilder) : Prop where
  room : ∀ before, before <+: calls → (runCalls tbl grant b before).Sound
  fails : ∀ before call, before ++ [call] <+: calls →
    let b := runCalls tbl grant b before
    ((∃ b', call.exec tbl grant b = .error b') ↔
      ∃ i, b.asked ≤ i ∧ i < (call.exec tbl grant b).builder.asked ∧ grant i = false)
  read : ∀ b', buildCalls tbl grant b calls = some b' →
    Json.parse (tbl.sent (getJsonString b')) = some v

/-- The escapes of `jsonEscapeBytes` are the builder's, of as many whole bytes as fit, and are read
as what these are sent as. -/
def EscapeLaw : Prop :=
  ∀ (outlen : Nat) (raw : List UInt8) (nonascii : Bool), ∃ k ≤ raw.length,
    jsonEscapeBytes tbl outlen raw nonascii = (raw.take k).flatMap (escapeChar tbl nonascii) ∧
    Json.Chars (tbl.sent (jsonEscapeBytes tbl outlen raw nonascii)) (tbl.unitsOf (raw.take k)) ∧
    (jsonEscapeBytes tbl outlen raw nonascii).length ≤ outlen - 1 ∧
    (k < raw.length →
      outlen ≤ (jsonEscapeBytes tbl outlen raw nonascii).length + JSON_ESC_MAX)

theorem jsonEscapeBytes_law : EscapeLaw tbl := by
  intro outlen raw nonascii
  rw [jsonEscapeBytes]
  split
  · rename_i h0
    exact ⟨0, Nat.zero_le _, rfl, .nil, Nat.zero_le _, fun _ => h0 ▸ Nat.zero_le _⟩
  · rename_i h0
    obtain ⟨k, hk, heq, hlt, hcut⟩ :=
      escapeLoop_spec tbl nonascii outlen [] raw (Nat.pos_of_ne_zero h0)
    rw [List.nil_append] at heq
    refine ⟨k, hk, heq, ?_, Nat.le_pred_of_lt hlt, hcut⟩
    rw [heq]
    exact escaped_chars tbl nonascii _

end Document

/-- For well-nested calls the builder keeps its law, whatever storage is refused, if and only if
each number's key fits the temp buffer with its quotes and colon. -/
theorem jsonBuilder_iff (tbl : JsonTable) {calls : List JsonCall} {v : Json.Value}
    (hd : DescribesTree tbl calls v) (hk : ∀ call ∈ calls, call.KeyOk tbl) :
    (EscapeLaw tbl ∧ ∀ grant b, createJsonBuilder grant = some b → BuilderLaw tbl grant calls v b) ↔
      ∀ call ∈ calls, call.Fits := by
  have hstart : ∀ {grant b}, createJsonBuilder grant = some b →
      b.Sound ∧ 0 ∉ b.buffer ∧ Writes tbl b [.doc none] := by
    intro grant b hb
    obtain ⟨hsound, rfl⟩ := createJsonBuilder_sound grant hb
    exact ⟨hsound, nofun, rfl, rfl⟩
  constructor
  · rintro ⟨-, hall⟩
    by_contra hf
    have hb : createJsonBuilder (fun _ => true) =
        some ⟨true, [], JSON_INITIAL_BUFFER_SIZE, 2⟩ := rfl
    obtain ⟨hsound, h0, hw⟩ := hstart hb
    obtain ⟨b', he⟩ := build_granted tbl _ hsound calls fun _ => rfl
    have hread := (hall _ _ hb).read b' he
    rw [getJsonString_eq ((build_appends tbl _ hsound he).2 h0)] at hread
    exact build_misses tbl _ hsound (by trivial) hw hd hk hf he hread
  · intro hf
    refine ⟨jsonEscapeBytes_law tbl, fun grant b hb => ?_⟩
    obtain ⟨hsound, h0, hw⟩ := hstart hb
    refine ⟨fun before _ => runCalls_sound tbl grant hsound before, fun before call _ =>
      exec_error_iff tbl grant (runCalls_sound tbl grant hsound before) call, fun b' he => ?_⟩
    rw [getJsonString_eq ((build_appends tbl grant hsound he).2 h0)]
    have hwrites := build_writes tbl grant hsound (by trivial) hw hd hk hf he
    have hend : Json.Parted [] := nofun
    rw [Json.parse, ← List.append_nil (tbl.sent b'.buffer),
      hwrites.leads.read_append fun _ => hend]
    rfl

/-! ## Code page 037 -/

/-- The host of code page 037, its responses translated with the page's table. -/
def JsonTable.cp037 : JsonTable where
  host c := HttpCp.cp037.atoe (UInt8.ofNat c.toNat)
  etoa := some HttpCp.cp037.etoa
  maps c _ := HttpCp.cp037_etoa_atoe (UInt8.ofNat c.toNat)
  notNul c hc h0 := by
    have h := HttpCp.cp037_etoa_atoe (UInt8.ofNat c.toNat)
    rw [h0] at h
    have hlt := isJsonChar_lt hc
    have hzero : c.toNat = 0 := by
      rw [← UInt8.toNat_ofNat_of_lt' hlt, ← h]
      rfl
    obtain rfl : c = Char.ofNat 0 := Char.toNat_inj.mp hzero
    exact nomatch hc

/-- A name of the host, of letters only. -/
def hostName (cs : List Char) (h : cs.all isJsonChar = true) : CStr :=
  ⟨JsonTable.cp037.lit cs, zero_notMem_lit _ _ h⟩

theorem length_hostName (cs : List Char) (h : cs.all isJsonChar = true) :
    (hostName cs h).bytes.length = cs.length := List.length_map _

theorem hostName_key (cs : List Char) (h : cs.all isJsonChar = true)
    (hlen : cs.length < JSON_TEMP_BUFFER_SIZE) (hplain : ∀ c ∈ cs, Json.Plain c) :
    (hostName cs h).bytes.length < JSON_TEMP_BUFFER_SIZE ∧
      ∀ c ∈ JsonTable.cp037.sent (hostName cs h).bytes, Json.Plain c := by
  rw [length_hostName, hostName, sent_lit _ _ h]
  exact ⟨hlen, hplain⟩

/-- The calls for `{"rc":-8,"x":["\""]}`. -/
def smallCalls : List JsonCall :=
  [.startJsonObject, .addJsonNumber (hostName ['r', 'c'] rfl) (-8),
    .startJsonArrayKey (hostName ['x'] rfl), .addJsonArrayString (some (hostName ['"'] rfl)),
    .endArray, .endJsonObject]

theorem jsonBuilder_iff_small :
    EscapeLaw JsonTable.cp037 ∧ ∀ grant b, createJsonBuilder grant = some b →
      BuilderLaw JsonTable.cp037 grant smallCalls
        (.obj [(Json.units ['r', 'c'], .num (-8) 0), (Json.units ['x'], .arr [.str [34]])]) b := by
  have hd : DescribesTree JsonTable.cp037 smallCalls
      (.obj [(Json.units ['r', 'c'], .num (-8) 0), (Json.units ['x'], .arr [.str [34]])]) := rfl
  have hrc := hostName_key ['r', 'c'] rfl (by decide) (List.forall_mem_cons.mpr
    ⟨by decide, List.forall_mem_singleton.mpr (by decide)⟩)
  have hx := hostName_key ['x'] rfl (by decide)
    (List.forall_mem_singleton.mpr (by decide))
  refine (jsonBuilder_iff JsonTable.cp037 hd ?_).mpr ?_
  · exact List.forall_mem_cons.mpr ⟨trivial, List.forall_mem_cons.mpr ⟨hrc,
      List.forall_mem_cons.mpr ⟨hx, List.forall_mem_cons.mpr ⟨trivial,
        List.forall_mem_cons.mpr ⟨trivial, List.forall_mem_singleton.mpr trivial⟩⟩⟩⟩⟩
  · have hfits : (hostName ['r', 'c'] rfl).bytes.length + 3 < JSON_TEMP_BUFFER_SIZE := by decide
    exact List.forall_mem_cons.mpr ⟨trivial, List.forall_mem_cons.mpr ⟨hfits,
      List.forall_mem_cons.mpr ⟨trivial, List.forall_mem_cons.mpr ⟨trivial,
        List.forall_mem_cons.mpr ⟨trivial, List.forall_mem_singleton.mpr trivial⟩⟩⟩⟩⟩

/-- A key of 253 characters. -/
def longKey : CStr :=
  hostName (List.replicate 253 'k')
    (List.all_eq_true.mpr fun _ hc => List.eq_of_mem_replicate hc ▸ rfl)

/-- An object with one number of that key. -/
def longKeyCalls : List JsonCall := [.startJsonObject, .addJsonNumber longKey 5, .endJsonObject]

/-- The number is written without its colon. -/
theorem longKey_unread : ¬ ((∀ call ∈ longKeyCalls, call.KeyOk JsonTable.cp037) →
    ∀ v, DescribesTree JsonTable.cp037 longKeyCalls v → ∀ grant b, createJsonBuilder grant = some b →
      BuilderLaw JsonTable.cp037 grant longKeyCalls v b) := by
  have hlen : longKey.bytes.length = 253 := (length_hostName _ _).trans List.length_replicate
  have hkey := hostName_key (List.replicate 253 'k')
    (List.all_eq_true.mpr fun _ hc => List.eq_of_mem_replicate hc ▸ rfl)
    (by rw [List.length_replicate]; decide) fun c hc => List.eq_of_mem_replicate hc ▸ by decide
  have hok : ∀ call ∈ longKeyCalls, call.KeyOk JsonTable.cp037 :=
    List.forall_mem_cons.mpr ⟨trivial, List.forall_mem_cons.mpr ⟨hkey,
      List.forall_mem_singleton.mpr trivial⟩⟩
  have hd : DescribesTree JsonTable.cp037 longKeyCalls
      (.obj [(JsonTable.cp037.unitsOf longKey.bytes, .num 5 0)]) := rfl
  intro h
  have hb : createJsonBuilder (fun _ => true) = some ⟨true, [], JSON_INITIAL_BUFFER_SIZE, 2⟩ := rfl
  obtain ⟨hsound, -⟩ := createJsonBuilder_sound _ hb
  obtain ⟨b', he⟩ := build_granted JsonTable.cp037 _ hsound longKeyCalls fun _ => rfl
  have hread := (h hok _ hd _ _ hb).read b' he
  rw [getJsonString_eq ((build_appends _ _ hsound he).2 nofun)] at hread
  refine build_misses _ _ hsound (by trivial) ⟨rfl, rfl⟩ hd hok (fun hf => ?_) he
    hread
  have hfits := hf (.addJsonNumber longKey 5) (List.mem_cons_of_mem _ List.mem_cons_self)
  rw [JsonCall.Fits, hlen] at hfits
  exact absurd hfits (by decide)

end Mvsmf
