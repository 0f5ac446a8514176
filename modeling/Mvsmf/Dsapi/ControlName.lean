import Mvsmf.Dsapi.AllocRequest
import Mvsmf.Lib.JsonChars
import Mathlib

/-!
# The names of a control body

The rename of a member or a data set and the creation from a model take a name out of the JSON body,
through a buffer of 64 characters, and refuse one that is too long. What the buffer does not hold is
not seen, so the name is the value of the client just where that is blank.
-/

namespace Mvsmf

open Json

/-! ## The names the handlers take -/

def REASON_INVALID_RENAME_REQUEST : Int := 6

def invalidRenameRequest : Answer :=
  ⟨Answer.HTTP_STATUS_BAD_REQUEST, Answer.CATEGORY_SERVICE, Answer.RC_ERROR,
    REASON_INVALID_RENAME_REQUEST, "Unsupported request; only 'rename' is supported", []⟩

def REQUEST_SIZE : Nat := 16

/-- `process_rename` up to the name it checks and renames: that of a member, or of a data set. -/
def processRename (member : Bool) (body : List Char) : Except Answer (List Char) :=
  if extractInto body "request" REQUEST_SIZE ≠ some "rename".toList then .error invalidRenameRequest
  else
    match extractInto body (if member then "member" else "dsn") JSON_VAL with
    | none => .error invalidRenameRequest
    | some val =>
      match normalizeDsn (some val) ((if member then MAX_MEMBER_NAME else MAX_DATASET_NAME) + 1) with
      | none => .error invalidRenameRequest
      | some name => .ok name

/-- A name of a control body. -/
inductive ControlName
  | member
  | dsn
  | like
  deriving DecidableEq, Repr

namespace ControlName

def key : ControlName → String
  | .member => "member"
  | .dsn => "dsn"
  | .like => "like"

def max : ControlName → Nat
  | .member => MAX_MEMBER_NAME
  | .dsn | .like => MAX_DATASET_NAME

/-- The name the handler goes on with, if it does not refuse the body. -/
def operatesOn (v : Vtoc) (body : List Char) : ControlName → Option (List Char)
  | .member => (processRename true body).toOption
  | .dsn => (processRename false body).toOption
  | .like => (createAlloc v body).toOption.bind Alloc.like

/-- The body asks for what the name is for. -/
def Asked (body : List Char) : ControlName → Prop
  | .member | .dsn => extractInto body "request" REQUEST_SIZE = some "rename".toList
  | .like => True

/-- What the buffer holds of a string that is written so. -/
def kept (text : List Char) : List Char := (text.takeWhile (· ≠ '"')).take (JSON_VAL - 1)

/-- What the buffer holds is refused, or there is no escape in it and the rest is blank. -/
def Seen (n : ControlName) (text : List Char) (us : List Nat) : Prop :=
  unpadded (kept text) = [] ∨ n.max < (unpadded (kept text)).length ∨
    '\\' ∉ text.take (JSON_VAL - 1) ∧ ∀ u ∈ us.drop (JSON_VAL - 1), u = 32

theorem operatesOn_of_none {n : ControlName} {body : List Char}
    (h : extractInto body n.key JSON_VAL = none) (v : Vtoc) : n.operatesOn v body = none := by
  cases n with
  | member =>
    have h : extractInto body "member" JSON_VAL = none := h
    simp only [operatesOn, processRename, if_true, h]
    split <;> rfl
  | dsn =>
    have h : extractInto body "dsn" JSON_VAL = none := h
    simp only [operatesOn, processRename, Bool.false_eq_true, if_false, h]
    split <;> rfl
  | like =>
    have h : extractInto body "like" JSON_VAL = none := h
    simp only [operatesOn, createAlloc, h]
    split <;> rfl

/-- The name is what `normalize_dsn` makes of the buffer; a model is one that is cataloged. -/
theorem operatesOn_eq_some_iff {n : ControlName} {body val : List Char} {name : List Char}
    (h : extractInto body n.key JSON_VAL = some val) :
    (∃ v, n.operatesOn v body = some name) ↔
      n.Asked body ∧ normalizeDsn (some val) (n.max + 1) = some name := by
  have hrename (member : Bool) (hkey : extractInto body (if member then "member" else "dsn") JSON_VAL
      = some val) : (processRename member body).toOption = some name ↔
        extractInto body "request" REQUEST_SIZE = some "rename".toList ∧ normalizeDsn (some val)
          ((if member then MAX_MEMBER_NAME else MAX_DATASET_NAME) + 1) = some name := by
    unfold processRename
    rw [hkey]
    split
    · next hask => exact iff_of_false nofun fun hname => hask hname.1
    · next hask =>
      rw [and_iff_right (not_not.mp hask)]
      dsimp only
      split
      · next hnone => exact iff_of_false nofun (by rw [hnone]; exact nofun)
      · next taken htaken =>
        rw [htaken]
        exact Iff.rfl
  have hany (P : Prop) : (∃ _ : Vtoc, P) ↔ P :=
    ⟨fun ⟨_, hp⟩ => hp, fun hp => ⟨⟨fun _ => none, fun _ _ => none, fun _ => none, fun _ _ => none⟩, hp⟩⟩
  cases n with
  | member => exact (hany _).trans (hrename true h)
  | dsn => exact (hany _).trans (hrename false h)
  | like =>
    have h : extractInto body "like" JSON_VAL = some val := h
    simp only [operatesOn, createAlloc, h, Asked, true_and]
    show _ ↔ normalizeDsn (some val) (MAX_DATASET_NAME + 1) = some name
    cases hname : normalizeDsn (some val) (MAX_DATASET_NAME + 1) with
    | none => simp [Except.toOption]
    | some like =>
      have hlike (v : Vtoc) : (Alloc.ofModel v like (BodyFields.read body)).like = some like :=
        (ofModel_data v like _).1
      constructor
      · rintro ⟨v, hv⟩
        dsimp only at hv
        split at hv
        · rw [← hv]
          exact (hlike v).symm
        · cases hv
      · intro heq
        let v : Vtoc := ⟨fun _ => some [], fun _ _ => none, fun _ => none, fun _ _ => none⟩
        have hcataloged : datasetCataloged v like = true := rfl
        refine ⟨v, ?_⟩
        simp only [hcataloged, if_true, ← heq]
        exact hlike v

/-! ## Whole values -/

/-- The name is the string value that is written so, without its trailing blanks and folded. -/
def Whole (us : List Nat) (name : List Char) : Prop :=
  ∃ value, us = units value ∧ name = folded value

theorem unpadded_blanks (value : List Char) (k : Nat) :
    unpadded (value ++ List.replicate k ' ') = unpadded value := Padding.rdropWhile_pad rfl k

theorem unpadded_unpadded (value : List Char) : unpadded (unpadded value) = unpadded value :=
  List.rdropWhile_idempotent _ _

/-- A value is what is left of it, with blanks behind. -/
theorem unpadded_append (value : List Char) :
    ∃ k, value = unpadded value ++ List.replicate k ' ' := by
  induction value using List.reverseRecOn with
  | nil => exact ⟨0, rfl⟩
  | append_singleton value c ih =>
    by_cases hc : c = ' '
    · subst hc
      obtain ⟨k, hk⟩ := ih
      refine ⟨k + 1, ?_⟩
      rw [show unpadded (value ++ [' ']) = unpadded value from unpadded_blanks value 1,
        List.replicate_succ', ← List.append_assoc, ← hk]
    · refine ⟨0, ?_⟩
      rw [List.replicate_zero, List.append_nil]
      exact (List.rdropWhile_concat_neg _ _ _ (by simpa [HostChar.blank] using hc)).symm

theorem count_folded (value : List Char) : (folded value).count ' ' = (unpadded value).count ' ' := by
  unfold folded
  induction unpadded value with
  | nil => rfl
  | cons c cs ih =>
    have hblank : HostChar.toupper c = ' ' ↔ c = ' ' := HostChar.toupper_eq_blank c
    by_cases hc : c = ' '
    · rw [List.map_cons, hblank.mpr hc, hc, List.count_cons_self, List.count_cons_self, ih]
    · rw [List.map_cons, List.count_cons_of_ne (mt hblank.mp hc), List.count_cons_of_ne hc, ih]

theorem kept_of_noQuote {text : List Char} (h : '"' ∉ text.take (JSON_VAL - 1)) :
    kept text = text.take (JSON_VAL - 1) := by
  have hall : ∀ c ∈ text.take (JSON_VAL - 1), (decide (c ≠ '"')) = true := by
    intro c hc
    refine decide_eq_true ?_
    rintro rfl
    exact h hc
  rw [kept, ← List.take_append_drop (JSON_VAL - 1) text, List.takeWhile_append_of_pos hall,
    List.take_append_drop]
  by_cases hlen : JSON_VAL - 1 ≤ text.length
  · have hfull : (text.take (JSON_VAL - 1)).length = JSON_VAL - 1 := by
      rw [List.length_take, Nat.min_eq_left hlen]
    rw [List.take_append_of_le_length hfull.ge, List.take_of_length_le hfull.le]
  · have hshort : text.drop (JSON_VAL - 1) = [] := List.drop_eq_nil_of_le (by omega)
    rw [hshort, List.takeWhile_nil, List.append_nil, List.take_take, Nat.min_self]

/-- A string with a quote in it is more than what is kept. -/
theorem quote_not_mem {text : List Char} {us : List Nat} (hchars : Chars text us)
    (h : Whole us (folded (kept text))) : '"' ∉ text := by
  intro hq
  obtain ⟨value, rfl, heq⟩ := h
  have hupper (c : Char) : HostChar.toupper c = '"' ↔ c = '"' := by
    show c.toUpper = '"' ↔ c = '"'
    rw [← Char.toNat_inj, ← Char.toNat_inj, toNat_toUpper, show '"'.toNat = 34 from rfl]
    split
    · omega
    · rfl
  obtain ⟨c, hc, hc34⟩ := List.mem_map.mp (hchars.quote_mem hq)
  obtain rfl : c = '"' := (toNat_eq_quote c).mp hc34
  have hvalue : '"' ∈ unpadded value := by
    obtain ⟨k, hk⟩ := unpadded_append value
    rw [hk] at hc
    refine (List.mem_append.mp hc).resolve_right fun hmem => ?_
    exact absurd (List.eq_of_mem_replicate hmem) (by decide)
  have hfolded : '"' ∈ folded (kept text) := by
    rw [heq]
    exact List.mem_map.mpr ⟨'"', hvalue, (hupper _).mpr rfl⟩
  obtain ⟨d, hd, hdq⟩ := List.mem_map.mp hfolded
  obtain rfl := (hupper d).mp hdq
  have hin := (List.take_prefix _ _).subset (( unpadded_prefix _).subset hd)
  exact absurd (List.mem_takeWhile_imp hin) (by simp)

/-- A value that is not blank behind `k` blanks keeps them. -/
theorem count_unpadded {front back : List Char} (hback : ¬∀ c ∈ back, c = ' ') (k : Nat) :
    front.count ' ' + k ≤ (unpadded (front ++ (List.replicate k ' ' ++ back))).count ' ' := by
  obtain ⟨m, hm⟩ := unpadded_append back
  have hne : unpadded back ≠ [] := by
    intro hnil
    rw [hnil, List.nil_append] at hm
    exact hback fun c hc => List.eq_of_mem_replicate (hm ▸ hc)
  have hvalue : unpadded (front ++ (List.replicate k ' ' ++ back)) =
      front ++ List.replicate k ' ' ++ unpadded back := by
    rw [hm, ← List.append_assoc, ← List.append_assoc, unpadded_blanks, ← hm]
    exact Padding.rdropWhile_append_self (unpadded_unpadded back) hne _
  rw [hvalue, List.count_append, List.count_append, List.count_replicate_self]
  exact Nat.le_add_right _ _

theorem whole_of_seen {text : List Char} {us : List Nat} (hchars : Chars text us)
    (hback : '\\' ∉ text.take (JSON_VAL - 1)) (hrest : ∀ u ∈ us.drop (JSON_VAL - 1), u = 32) :
    Whole us (folded (kept text)) := by
  obtain ⟨ws, hus, hws, hplain⟩ : ∃ ws, us = units (text.take (JSON_VAL - 1)) ++ ws ∧
      Chars (text.drop (JSON_VAL - 1)) ws ∧ ∀ c ∈ text.take (JSON_VAL - 1), Plain c := by
    rw [← List.take_append_drop (JSON_VAL - 1) text] at hchars
    exact hchars.split_plain hback
  have hblank : ∀ u ∈ ws, u = 32 := by
    by_cases hlen : JSON_VAL - 1 ≤ text.length
    · have hfull : (units (text.take (JSON_VAL - 1))).length = JSON_VAL - 1 := by
        rw [units, List.length_map, List.length_take, Nat.min_eq_left hlen]
      rw [hus, List.drop_left' hfull] at hrest
      exact hrest
    · rw [List.drop_eq_nil_of_le (by omega)] at hws
      cases hws
      exact List.forall_mem_nil _
  have hrep : ws = units (List.replicate ws.length ' ') := by
    rw [units, List.map_replicate]
    exact List.eq_replicate_of_mem hblank
  refine ⟨text.take (JSON_VAL - 1) ++ List.replicate ws.length ' ', ?_, ?_⟩
  · rw [units, List.map_append, ← units, ← units, ← hrep, hus]
  · rw [kept_of_noQuote fun hq => (hplain _ hq).1 rfl, folded, folded, unpadded_blanks]

/-- A value that has the blanks of the text is no longer than it, and blank behind them. -/
theorem split_whole {front back : List Char} {us : List Nat} {a : Nat}
    (hchars : Chars (front ++ (List.replicate (a + 1) ' ' ++ back)) us)
    (hfront : unpadded front = front) (h : Whole us (folded front)) :
    ∃ vs ws, us = vs ++ (List.replicate (a + 1) 32 ++ ws) ∧ Chars front vs ∧
      front.length ≤ vs.length ∧ ∀ u ∈ ws, u = 32 := by
  obtain ⟨vs, ws', rfl, hvs, hws'⟩ := hchars.split_blank
  have hnoesc : '\\' ∉ List.replicate a ' ' :=
    fun hmem => absurd (List.eq_of_mem_replicate hmem) (by decide)
  obtain ⟨ws, rfl, hws, -⟩ := hws'.split_plain hnoesc
  obtain ⟨value, hvalue, heq⟩ := h
  have hunits : vs ++ 32 :: (units (List.replicate a ' ') ++ ws) =
      vs ++ (List.replicate (a + 1) 32 ++ ws) := by
    rw [units, List.map_replicate]
    rfl
  rw [hunits] at hvalue ⊢
  obtain ⟨first, rest, rfl, hfirst, hrest⟩ := List.map_eq_append_iff.mp hvalue.symm
  obtain ⟨mid, last, rfl, hmid, hlast⟩ := List.map_eq_append_iff.mp hrest
  obtain rfl : mid = List.replicate (a + 1) ' ' := by
    refine units_inj (hmid.trans ?_)
    rw [units, List.map_replicate]
    rfl
  have hlen : first.length = vs.length := by rw [← hfirst, List.length_map]
  have hblank : ∀ c ∈ last, c = ' ' := by
    -- otherwise the value has more blanks than the text in front of it
    refine Classical.byContradiction fun hback => ?_
    have hvalue := @count_unpadded first _ hback (a + 1)
    have hcount : front.count ' ' ≤ first.count ' ' := by
      have hle := hvs.count_blank
      have hfirst : vs.count 32 = first.count ' ' := by
        rw [← hfirst]
        exact List.count_map_of_injective _ _ (fun _ _ => Char.toNat_inj.mp) ' '
      rwa [hfirst] at hle
    have hsame := congrArg (List.count ' ') heq
    rw [count_folded, count_folded, hfront] at hsame
    omega
  refine ⟨vs, ws, rfl, hvs, ?_, fun u hu => ?_⟩
  · have hsame := congrArg List.length heq
    rw [length_folded, length_folded, hfront, unpadded, Padding.rdropWhile_append] at hsame
    · have hle := ( unpadded_prefix first).length_le
      rw [hsame]
      exact hlen ▸ hle
    · intro c hc
      rcases List.mem_append.mp hc with hc | hc
      · rw [List.eq_of_mem_replicate hc]
        rfl
      · rw [hblank c hc]
        rfl
  · rw [← hlast] at hu
    obtain ⟨c, hc, rfl⟩ := List.mem_map.mp hu
    rw [hblank c hc]
    rfl

theorem seen_of_whole {text : List Char} {us : List Nat} (hchars : Chars text us)
    (hlen : (unpadded (kept text)).length < JSON_VAL - 1) (h : Whole us (folded (kept text))) :
    '\\' ∉ text.take (JSON_VAL - 1) ∧ ∀ u ∈ us.drop (JSON_VAL - 1), u = 32 := by
  have hquote := quote_not_mem hchars h
  rw [kept_of_noQuote fun hq => hquote ((List.take_prefix _ _).subset hq)] at h hlen
  obtain ⟨a, ha⟩ := unpadded_append (text.take (JSON_VAL - 1))
  have hwhole : Whole us (folded (unpadded (text.take (JSON_VAL - 1)))) := by
    rw [folded, unpadded_unpadded]
    exact h
  have hfront := unpadded_unpadded (text.take (JSON_VAL - 1))
  have htake := List.length_take (i := JSON_VAL - 1) (l := text)
  generalize unpadded (text.take (JSON_VAL - 1)) = front at *
  have htext : text = front ++ (List.replicate a ' ' ++ text.drop (JSON_VAL - 1)) := by
    rw [← List.append_assoc, ← ha, List.take_append_drop]
  have hfull := congrArg List.length ha
  rw [htake, List.length_append, List.length_replicate] at hfull
  have hnoBlank : '\\' ∉ List.replicate a ' ' :=
    fun hmem => absurd (List.eq_of_mem_replicate hmem) (by decide)
  cases a with
  | zero =>
    -- the text is no longer than the buffer
    have hshort : text.length < JSON_VAL - 1 := by omega
    have hdrop : text.drop (JSON_VAL - 1) = [] := List.drop_eq_nil_of_le hshort.le
    rw [hdrop, List.append_nil, List.replicate_zero, List.append_nil] at htext
    have hlong := hchars.length_le
    obtain ⟨value, rfl, heq⟩ := hwhole
    have hsame := congrArg List.length heq
    rw [length_folded, length_folded, hfront] at hsame
    have hle := ( unpadded_prefix value).length_le
    rw [units, List.length_map] at hlong
    refine ⟨fun hb => ?_, ?_⟩
    · have hlt := hlong.2 ((List.take_prefix _ _).subset hb)
      have htextLength := congrArg List.length htext
      omega
    · rw [List.drop_eq_nil_of_le (by rw [units, List.length_map]; omega)]
      exact List.forall_mem_nil _
  | succ a =>
    rw [htext] at hchars
    obtain ⟨vs, ws, rfl, hvs, hle, hws⟩ := split_whole hchars hfront hwhole
    have hlong := hvs.length_le
    have hfrontBack : '\\' ∉ front := fun hb => absurd (hlong.2 hb) (by omega)
    refine ⟨?_, fun u hu => ?_⟩
    · rw [ha]
      exact fun hmem => (List.mem_append.mp hmem).elim hfrontBack hnoBlank
    · rw [← List.append_assoc, List.drop_append, List.drop_eq_nil_of_le, List.nil_append] at hu
      · exact hws u (List.mem_of_mem_drop hu)
      · rw [List.length_append, List.length_replicate]
        omega

/-! ## Control bodies -/

theorem key_word (n : ControlName) :
    searchText n.key.toList = '"' :: (n.key.toList ++ ['"']) ∧ n.key.toList ≠ [] ∧
      ∀ c ∈ n.key.toList, isWord c = true := by
  cases n <;> exact ⟨rfl, List.cons_ne_nil _ _, by simp [key, isWord]⟩

/-- In a JSON text what is behind the first place of the name begins as a string. -/
theorem beginsString (n : ControlName) {body val : List Char} {doc : Value}
    (h : parse body = some doc) (hfirst : FirstField (searchText n.key.toList) body ('"' :: val)) :
    BeginsString val := by
  obtain ⟨hsearch, hne, hword⟩ := n.key_word
  obtain ⟨gap, sep, hgap, hsep, hplace⟩ := hfirst
  have hspace {bs : List Char} (hbs : Blanks bs) : ∀ c ∈ bs, isSpace c = true := by
    intro c hc
    rcases hbs c hc with rfl | rfl <;> rfl
  obtain ⟨front, rfl⟩ := CLib.strstrAt_suffix hplace
  rw [parse, read_append] at h
  obtain ⟨s, -, hread⟩ := Option.bind_eq_some_iff.mp h
  rw [hsearch, List.cons_append, List.append_assoc, List.singleton_append] at hread
  exact read_named hword hne (hspace hgap) (hspace hsep) hread

/-- What is kept of the value is what the buffer holds. -/
theorem extractInto_kept {n : ControlName} {body text rest : List Char}
    (hfirst : FirstField (searchText n.key.toList) body ('"' :: (text ++ '"' :: rest))) :
    extractInto body n.key JSON_VAL = some (kept text) := by
  have hwhile : (text ++ '"' :: rest).takeWhile (· ≠ '"') = text.takeWhile (· ≠ '"') := by
    rw [List.takeWhile_append]
    split
    · next hall =>
      rw [List.takeWhile_cons_of_neg (by simp), List.append_nil]
      exact ((List.takeWhile_prefix _).eq_of_length hall).symm
    · rfl
  have hquoted : quotedValue (searchText n.key.toList) body =
      some (text ++ '"' :: rest, (text.takeWhile (· ≠ '"')).length) := by
    rw [quotedValue, fieldValue_quote_iff.mpr hfirst]
    change (if '"' ∈ text ++ '"' :: rest then _ else _) = _
    rw [if_pos (by simp), hwhile]
  have htake : (text ++ '"' :: rest).take (text.takeWhile (· ≠ '"')).length =
      text.takeWhile (· ≠ '"') :=
    (List.prefix_iff_eq_take.mp ((List.takeWhile_prefix _).trans (List.prefix_append _ _))).symm
  rw [extractInto_eq body n.key (by decide), askedText, hquoted]
  exact congrArg some (congrArg (List.take (JSON_VAL - 1)) htake)

theorem normalizeDsn_kept {n : ControlName} {text name : List Char} :
    normalizeDsn (some (kept text)) (n.max + 1) = some name ↔
      name = folded (kept text) ∧ unpadded (kept text) ≠ [] ∧
        (unpadded (kept text)).length ≤ n.max := by
  rw [normalizeDsn_eq_some_iff]
  constructor
  · rintro ⟨value, hvalue, rfl, hne, hlt⟩
    obtain rfl := Option.some.inj hvalue
    rw [length_folded] at hlt
    refine ⟨rfl, fun hnil => hne ?_, Nat.lt_succ_iff.mp hlt⟩
    exact length_eq_zero_iff_folded.mp (List.length_eq_zero_iff.mpr hnil)
  · rintro ⟨rfl, hne, hle⟩
    refine ⟨_, rfl, rfl, fun hnil => hne ?_, ?_⟩
    · exact List.length_eq_zero_iff.mp (length_eq_zero_iff_folded.mpr hnil)
    · rw [length_folded]
      exact Nat.lt_succ_of_le hle

/-- **The names of control bodies.** For every JSON body: no name is taken from it, or the name
stands as a string behind its key, and what a handler goes on with is the whole of it exactly if the
body asks for nothing else and no more than blanks are not seen. -/
theorem controlName_iff (n : ControlName) {body : List Char} {doc : Value}
    (h : parse body = some doc) :
    (∀ v, n.operatesOn v body = none) ∨
      ∃ text rest us, FirstField (searchText n.key.toList) body ('"' :: (text ++ '"' :: rest)) ∧
        Chars text us ∧
        ((∀ v name, n.operatesOn v body = some name → Whole us name) ↔
          ¬n.Asked body ∨ n.Seen text us) := by
  cases hquoted : quotedValue (searchText n.key.toList) body with
  | none =>
    refine .inl (operatesOn_of_none ?_)
    rw [extractInto_eq body n.key (by decide), askedText, hquoted]
    rfl
  | some found =>
    obtain ⟨val, len⟩ := found
    obtain ⟨-, -, hfirst, -⟩ := quotedValue_eq_some_iff.mp hquoted
    obtain ⟨text, us, rest, rfl, hchars⟩ := n.beginsString h hfirst
    have hname (name : List Char) : (∃ v, n.operatesOn v body = some name) ↔ n.Asked body ∧
        name = folded (kept text) ∧ unpadded (kept text) ≠ [] ∧
          (unpadded (kept text)).length ≤ n.max := by
      rw [operatesOn_eq_some_iff (extractInto_kept hfirst), normalizeDsn_kept]
    have hmax : n.max < JSON_VAL - 1 := by cases n <;> decide
    refine .inr ⟨text, rest, us, hfirst, hchars, fun hall => ?_, fun hseen v name hv => ?_⟩
    · refine or_iff_not_imp_left.mpr fun hasked => ?_
      by_cases hnil : unpadded (kept text) = []
      · exact .inl hnil
      · by_cases hlong : n.max < (unpadded (kept text)).length
        · exact .inr (.inl hlong)
        · have hle := Nat.le_of_not_lt hlong
          obtain ⟨v, hv⟩ := (hname _).mpr ⟨not_not.mp hasked, rfl, hnil, hle⟩
          exact .inr (.inr (seen_of_whole hchars (Nat.lt_of_le_of_lt hle hmax) (hall v _ hv)))
    · obtain ⟨hasked, rfl, hne, hle⟩ := (hname name).mp ⟨v, hv⟩
      rcases hseen with hnot | hnil | hlong | ⟨hback, hrest⟩
      · exact absurd hasked hnot
      · exact absurd hnil hne
      · exact absurd hle (Nat.not_le.mpr hlong)
      · exact whole_of_seen hchars hback hrest

theorem controlName_iff_rename :
    let body := "\x7b\"request\":\"rename\",\"member\":\"old \"\x7d".toList
    (∀ v, ControlName.member.operatesOn v body = none) ∨
      ∃ text rest us,
        FirstField (searchText "member".toList) body ('"' :: (text ++ '"' :: rest)) ∧
        Chars text us ∧
        ((∀ v name, ControlName.member.operatesOn v body = some name → Whole us name) ↔
          ¬ControlName.member.Asked body ∨ ControlName.member.Seen text us) := by
  have hparse : parse "\x7b\"request\":\"rename\",\"member\":\"old \"\x7d".toList =
      some (.obj [(units "request".toList, .str (units "rename".toList)),
        (units "member".toList, .str (units "old ".toList))]) := by
    rfl
  exact controlName_iff .member hparse

/-- A name of 66 characters is taken for its first three. -/
theorem controlName_aliases :
    let value := "ABC".toList ++ List.replicate 60 ' ' ++ "DEF".toList
    let body := "\x7b\"request\":\"rename\",\"member\":\"".toList ++ value ++ "\"\x7d".toList
    parse body = some (.obj [(units "request".toList, .str (units "rename".toList)),
        (units "member".toList, .str (units value))]) ∧
      (∀ v, ControlName.member.operatesOn v body = some "ABC".toList) ∧
      ¬Whole (units value) "ABC".toList := by
  intro value body
  have hname : (processRename true body).toOption = some "ABC".toList := by decide +kernel
  refine ⟨by rfl, fun _ => hname, ?_⟩
  rintro ⟨value', hunits, heq⟩
  rw [← units_inj hunits] at heq
  exact absurd heq (by decide +kernel)

end ControlName

end Mvsmf
