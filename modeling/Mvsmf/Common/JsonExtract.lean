import Mvsmf.Jobs.JobReq
import Mvsmf.Lib.Strtoul

/-!
# Values taken out of a JSON body

The data set, file and job services each look a name up in a body with `strstr` and take what stands
between the next quotes behind its colon. `jobreq_parse` scans the same bodies by their structure.
The two come to one result on a plain body only.
-/

namespace Mvsmf

open Json CLib

/-- `while (*pos == ' ' || *pos == '\t') pos++` -/
def skipBlanks (p : List Char) : List Char := p.dropWhile fun c => c = ' ' || c = '\t'

/-- What stands behind the first place of a search text, a colon and the blanks around it. -/
def fieldValue (search json : List Char) : Option (List Char) :=
  match strstrAt search json with
  | none => none
  | some pos =>
    match skipBlanks (pos.drop search.length) with
    | ':' :: pos => some (skipBlanks pos)
    | _ => none

/-- The value there, if it is in quotes: `val_start`, and `val_end - val_start`. -/
def quotedValue (search json : List Char) : Option (List Char × Nat) :=
  match fieldValue search json with
  | some ('"' :: val) =>
    if '"' ∈ val then some (val, (val.takeWhile (· ≠ '"')).length) else none
  | _ => none

def SEARCH_SIZE : Nat := 64

/-- `snprintf(search, sizeof(search), "\"%s\"", key)` -/
def searchText (key : List Char) : List Char := ('"' :: (key ++ ['"'])).take (SEARCH_SIZE - 1)

/-- `if (len >= outlen) len = outlen - 1` -/
def keptLen (outlen len : Nat) : Nat := if outlen ≤ len then outlen - 1 else len

/-- `extract_json_string` of the data set services: where the value begins, and how much of it is
copied. -/
def extractJsonString (json key : List Char) (outlen : Nat) : Option (List Char × Nat) :=
  (quotedValue (searchText key) json).map fun (val, len) => (val, keptLen outlen len)

/-- `uss_extract_json_string` -/
def ussExtractJsonString (json key : List Char) (outlen : Nat) : Option (List Char × Nat) :=
  (quotedValue (searchText key) json).map fun (val, len) => (val, keptLen outlen len)

/-- `extract_file_value`, which ends the value where it stands. -/
def extractFileValue (json : List Char) : Option (List Char × Nat) :=
  if json = [] then none else quotedValue "\"file\"".toList json

/-- One of them, with its name and the size of its buffer. -/
inductive Extractor
  | dsapi (key : List Char) (outlen : Nat)
  | ussapi (key : List Char) (outlen : Nat)
  | jobsapi

namespace Extractor

def run (json : List Char) : Extractor → Option (List Char × Nat)
  | .dsapi key outlen => extractJsonString json key outlen
  | .ussapi key outlen => ussExtractJsonString json key outlen
  | .jobsapi => extractFileValue json

def key : Extractor → List Char
  | .dsapi key _ | .ussapi key _ => key
  | .jobsapi => "file".toList

def search : Extractor → List Char
  | .dsapi key _ | .ussapi key _ => searchText key
  | .jobsapi => "\"file\"".toList

def kept (len : Nat) : Extractor → Nat
  | .dsapi _ outlen | .ussapi _ outlen => keptLen outlen len
  | .jobsapi => len

/-- There is room for a value of this length. -/
def Fits (len : Nat) : Extractor → Prop
  | .dsapi _ outlen | .ussapi _ outlen => len ≤ outlen - 1
  | .jobsapi => True

theorem run_eq (json : List Char) (x : Extractor) :
    x.run json = (quotedValue x.search json).map fun (val, len) => (val, x.kept len) := by
  cases x with
  | dsapi key outlen => rfl
  | ussapi key outlen => rfl
  | jobsapi =>
    cases json with
    | nil => rfl
    | cons c json => exact Option.map_id'.symm

theorem kept_eq_iff (x : Extractor) (len : Nat) : x.kept len = len ↔ x.Fits len := by
  cases x with
  | jobsapi => exact iff_of_true rfl trivial
  | _ =>
    simp only [kept, keptLen, Fits]
    split <;> omega

end Extractor

/-! ## What stands in the text -/

/-- Blanks and tabs. -/
def Blanks (cs : List Char) : Prop := ∀ c ∈ cs, c = ' ' ∨ c = '\t'

/-- The first place of a search text has a colon and then this text behind it. -/
def FirstField (search json value : List Char) : Prop :=
  ∃ gap sep, Blanks gap ∧ Blanks sep ∧
    strstrAt search json = some (search ++ (gap ++ ':' :: (sep ++ value)))

theorem skipBlanks_append {bs : List Char} (h : Blanks bs) (p : List Char) :
    skipBlanks (bs ++ p) = skipBlanks p :=
  List.dropWhile_append_of_pos fun c hc => by simpa using h c hc

theorem skipBlanks_cons {c : Char} (hc : c ≠ ' ' ∧ c ≠ '\t') (p : List Char) :
    skipBlanks (c :: p) = c :: p :=
  List.dropWhile_cons_of_neg (by simpa using hc)

theorem skipBlanks_split (p : List Char) : ∃ bs, Blanks bs ∧ p = bs ++ skipBlanks p := by
  refine ⟨p.takeWhile fun c => c = ' ' || c = '\t', fun c hc => ?_,
    List.takeWhile_append_dropWhile.symm⟩
  simpa using List.mem_takeWhile_imp hc

/-- What begins with no blank stands right behind the blanks. -/
theorem fieldValue_cons_iff {search json val : List Char} {c : Char} (hc : c ≠ ' ' ∧ c ≠ '\t') :
    fieldValue search json = some (c :: val) ↔ FirstField search json (c :: val) := by
  constructor
  · intro h
    unfold fieldValue at h
    split at h
    · cases h
    · next place hplace =>
      obtain ⟨post, rfl⟩ := strstrAt_prefix hplace
      rw [List.drop_left] at h
      obtain ⟨gap, hgap, heq⟩ := skipBlanks_split post
      split at h
      · next pos hpos =>
        obtain ⟨sep, hsep, heq'⟩ := skipBlanks_split pos
        refine ⟨gap, sep, hgap, hsep, ?_⟩
        rw [hplace, heq, hpos, heq', Option.some.inj h]
      · cases h
  · rintro ⟨gap, sep, hgap, hsep, hplace⟩
    simp only [fieldValue, hplace, List.drop_left, skipBlanks_append hgap,
      @skipBlanks_cons ':' (by decide), skipBlanks_append hsep, skipBlanks_cons hc]

theorem fieldValue_quote_iff {search json val : List Char} :
    fieldValue search json = some ('"' :: val) ↔ FirstField search json ('"' :: val) :=
  fieldValue_cons_iff (by decide)

theorem takeWhile_quote {text : List Char} (h : '"' ∉ text) (rest : List Char) :
    (text ++ '"' :: rest).takeWhile (· ≠ '"') = text := by
  rw [List.takeWhile_append_of_pos, List.takeWhile_cons_of_neg (by simp), List.append_nil]
  intro c hc
  refine decide_eq_true ?_
  rintro rfl
  exact h hc

theorem quotedValue_eq_some_iff {search json val : List Char} {len : Nat} :
    quotedValue search json = some (val, len) ↔
      ∃ text rest, FirstField search json ('"' :: val) ∧ '"' ∉ text ∧ val = text ++ '"' :: rest ∧
        len = text.length := by
  constructor
  · intro h
    unfold quotedValue at h
    split at h
    · next val' hval =>
      obtain ⟨hq, heq⟩ := Option.ite_none_right_eq_some.mp h
      cases heq
      obtain ⟨text, rest, rfl, htext⟩ := List.eq_append_cons_of_mem hq
      exact ⟨text, rest, fieldValue_quote_iff.mp hval, htext, rfl, by rw [takeWhile_quote htext]⟩
    · cases h
  · rintro ⟨text, rest, hfirst, htext, rfl, rfl⟩
    rw [quotedValue, fieldValue_quote_iff.mpr hfirst]
    change (if '"' ∈ text ++ '"' :: rest then _ else _) = _
    rw [if_pos (by simp), takeWhile_quote htext]

/-! ## The members of the object -/

/-- The extractor gives the value of the last member of its name, from where it stands and as the
scan of `jobreq_parse` gives it; and nothing where that member has no string or is not there. -/
def Extractor.Reads (x : Extractor) {body : List Char} {ms : List (List Nat × Value)}
    (d : Layout body ms) : Prop :=
  match x.run body with
  | some (val, len) =>
    ∃ e back us, d.Last (units x.key) e back ∧ e.value = .str us ∧
      '"' :: val = e.text ++ (e.tail ++ d.behind back) ∧ units (val.take len) = us ∧
      jobreqScan x.key body = some (some (.string val len))
  | none =>
    (∀ e back us, d.Last (units x.key) e back → e.value ≠ .str us) ∧
      ∀ val len, jobreqScan x.key body ≠ some (some (.string val len))

/-- The last member of the name is written without escapes, in its name and in its value, and it
fits; and the first place of the quoted name has a colon and this value behind it, with blanks and
tabs between them. -/
def Extractor.Plain (x : Extractor) {body : List Char} {ms : List (List Nat × Value)}
    (d : Layout body ms) : Prop :=
  ∃ e back text, d.Last (units x.key) e back ∧ e.name = x.key ∧ e.text = '"' :: (text ++ ['"']) ∧
    '\\' ∉ text ∧ x.Fits text.length ∧
    FirstField x.search body (e.text ++ (e.tail ++ d.behind back))

/-- There is no string of the name, however that is written, and behind the first place of the
quoted name there is none. -/
def Extractor.Without (x : Extractor) {body : List Char} {ms : List (List Nat × Value)}
    (d : Layout body ms) : Prop :=
  (∀ e back us, d.Last (units x.key) e back → e.value ≠ .str us) ∧
    (∀ e back us, d.LastWritten x.key e back → e.value ≠ .str us) ∧
    ∀ text rest, ¬ FirstField x.search body ('"' :: (text ++ '"' :: rest))

theorem valueAt_string {text rest val : List Char} {len : Nat}
    (h : valueAt text rest = .string val len) :
    text.head? = some '"' ∧ '"' :: val = text ++ rest ∧ len = text.length - 2 := by
  rw [valueAt] at h
  split at h
  · next hq =>
    cases h
    cases text with
    | nil => cases hq
    | cons c text =>
      obtain rfl := Option.some.inj hq
      exact ⟨rfl, rfl, rfl⟩
  · cases h

namespace Extractor

variable (x : Extractor) {body : List Char} {ms : List (List Nat × Value)} (d : Layout body ms)

theorem run_eq_some_iff {val : List Char} {len : Nat} :
    x.run body = some (val, len) ↔
      ∃ text rest, FirstField x.search body ('"' :: val) ∧ '"' ∉ text ∧ val = text ++ '"' :: rest ∧
        len = x.kept text.length := by
  rw [run_eq, Option.map_eq_some_iff]
  constructor
  · rintro ⟨⟨val', len'⟩, hq, heq⟩
    cases heq
    obtain ⟨text, rest, hfirst, htext, hval, rfl⟩ := quotedValue_eq_some_iff.mp hq
    exact ⟨text, rest, hfirst, htext, hval, rfl⟩
  · rintro ⟨text, rest, hfirst, htext, hval, rfl⟩
    exact ⟨(val, text.length),
      quotedValue_eq_some_iff.mpr ⟨text, rest, hfirst, htext, hval, rfl⟩, rfl⟩

/-- What the scan finds is the value of the last member that is written so. -/
theorem scan_string {val : List Char} {len : Nat}
    (h : jobreqScan x.key body = some (some (.string val len))) :
    ∃ e back, d.LastWritten x.key e back ∧ (∃ us, e.value = .str us) ∧
      '"' :: val = e.text ++ (e.tail ++ d.behind back) ∧ len = e.text.length - 2 := by
  rw [jobreqScan_eq x.key d] at h
  obtain ⟨front, e, back, hes, hname, hback, hv⟩ := lastNamed_eq_some (Option.some.inj h)
  obtain ⟨hq, hval, hlen⟩ := valueAt_string hv.symm
  have hok := d.ok e (hes ▸ List.mem_append_right _ List.mem_cons_self)
  exact ⟨e, back, ⟨⟨front, hes⟩, hname, hback⟩, hok.text.head_iff.mp hq, hval, hlen⟩

theorem scan_of_last {e : Entry} {back : List Entry} (h : d.LastWritten x.key e back) :
    jobreqScan x.key body = some (some (valueAt e.text (e.tail ++ d.behind back))) := by
  obtain ⟨front, hes⟩ := h.member
  rw [jobreqScan_eq x.key d, hes, lastNamed_append h.spelled h.last]
  rfl

theorem kept_le (len : Nat) : x.kept len ≤ len := by
  cases x <;> simp only [kept, keptLen] <;> (try split) <;> omega

/-- A text without a quote that is no shorter ends with the other. -/
theorem text_eq_of_quote {text text' rest rest' : List Char} (h : '"' ∉ text')
    (hlen : text.length ≤ text'.length) (heq : text ++ '"' :: rest = text' ++ '"' :: rest') :
    text = text' := by
  rcases List.append_eq_append_iff.mp heq with ⟨mid, rfl, hmid⟩ | ⟨mid, rfl, -⟩
  · cases mid with
    | nil => exact (List.append_nil _).symm
    | cons c mid =>
      obtain ⟨rfl, -⟩ := List.cons.inj hmid
      exact absurd (List.mem_append_right _ List.mem_cons_self) h
  · rw [List.length_append] at hlen
    rw [List.eq_nil_of_length_eq_zero (by omega : mid.length = 0), List.append_nil]

theorem plain_of_reads {val : List Char} {len : Nat} (hrun : x.run body = some (val, len))
    (h : x.Reads d) : x.Plain d := by
  simp only [Reads, hrun] at h
  obtain ⟨e, back, us, hlast, hvalue, hval, hunits, hscan⟩ := h
  obtain ⟨e', back', hlast', -, hval', hlen⟩ := x.scan_string d hscan
  obtain ⟨front, hes⟩ := hlast.member
  obtain ⟨front', hes'⟩ := hlast'.member
  obtain ⟨rfl, rfl⟩ := d.eq_of_place hes hes' (hval.symm.trans hval')
  have hok := d.ok e (hes ▸ List.mem_append_right _ List.mem_cons_self)
  obtain ⟨text, htext, hchars⟩ := (hvalue ▸ hok.text).string_of
  obtain ⟨text', rest, hfirst, hq, hval'', hkept⟩ := x.run_eq_some_iff.mp hrun
  have hlen' : x.kept text'.length = text.length := by
    rw [← hkept, hlen, htext]
    simp
  have hstart : val = text ++ '"' :: (e.tail ++ d.behind back) := by
    rw [htext] at hval
    simpa using hval
  obtain rfl : text = text' := by
    refine text_eq_of_quote hq ?_ (hstart.symm.trans hval'')
    exact hlen' ▸ x.kept_le _
  have hplain : units text = us := by
    rw [← hunits, hkept, hlen', hstart, List.take_left]
  refine ⟨e, back, text, hlast, hlast'.spelled, htext, fun hb => ?_,
    (x.kept_eq_iff _).mp hlen', hval ▸ hfirst⟩
  have hshort := hchars.length_le.2 hb
  rw [← hplain, units, List.length_map] at hshort
  exact Nat.lt_irrefl _ hshort

theorem reads_of_plain (h : x.Plain d) : x.Reads d := by
  obtain ⟨e, back, text, hlast, hname, htext, hb, hfits, hfirst⟩ := h
  obtain ⟨front, hes⟩ := hlast.member
  have hmem : ∀ f ∈ e :: back, f.Ok := fun f hf => d.ok f (hes ▸ List.mem_append_right _ hf)
  obtain ⟨he, hback⟩ := List.forall_mem_cons.mp hmem
  have hq : e.text.head? = some '"' := by
    rw [htext]
    rfl
  obtain ⟨us, hus⟩ := he.text.head_iff.mp hq
  obtain ⟨text', htext', hchars⟩ := (hus ▸ he.text).string_of
  obtain rfl : text = text' := by
    have := htext.symm.trans htext'
    simpa using this
  obtain ⟨hplain, rfl⟩ := hchars.plain_of hb
  have hstart : e.text ++ (e.tail ++ d.behind back) =
      '"' :: (text ++ '"' :: (e.tail ++ d.behind back)) := by
    rw [htext]
    simp
  have hrun : x.run body = some (text ++ '"' :: (e.tail ++ d.behind back), text.length) := by
    refine x.run_eq_some_iff.mpr ⟨text, e.tail ++ d.behind back, hstart ▸ hfirst, ?_, rfl, ?_⟩
    · exact fun hin => (hplain _ hin).1 rfl
    · exact ((x.kept_eq_iff _).mpr hfits).symm
  -- a later member that is written so would have the name
  have hlast' : d.LastWritten x.key e back := by
    refine ⟨hlast.member, hname, fun f hf heq => hlast.last f hf ?_⟩
    have hf := (hback f hf).name
    rw [heq, ← hname] at hf
    rw [← hlast.key]
    exact hf.unique he.name
  simp only [Reads, hrun]
  refine ⟨e, back, units text, hlast, hus, hstart.symm, by rw [List.take_left], ?_⟩
  rw [x.scan_of_last d hlast', valueAt, if_pos hq]
  simp [htext]

theorem reads_iff_without (hrun : x.run body = none) : x.Reads d ↔ x.Without d := by
  simp only [Reads, hrun, Without]
  refine and_congr_right fun _ => ⟨fun h => ⟨?_, ?_⟩, fun h val len hscan => ?_⟩
  · intro e back us hlast hus
    obtain ⟨front, hes⟩ := hlast.member
    have hok := d.ok e (hes ▸ List.mem_append_right _ List.mem_cons_self)
    have hq := hok.text.head_iff.mpr ⟨us, hus⟩
    have hscan := x.scan_of_last d hlast
    rw [valueAt, if_pos hq] at hscan
    exact h _ _ hscan
  · intro text rest hfirst
    have hq : '"' ∈ text ++ '"' :: rest := List.mem_append_right _ List.mem_cons_self
    obtain ⟨text', rest', heq, htext'⟩ := List.eq_append_cons_of_mem hq
    have hsome := x.run_eq_some_iff.mpr ⟨text', rest', hfirst, htext', heq, rfl⟩
    rw [hrun] at hsome
    cases hsome
  · obtain ⟨e, back, hlast, ⟨us, hus⟩, -⟩ := x.scan_string d hscan
    exact h.1 e back us hlast hus

theorem not_plain_of_none (hrun : x.run body = none) : ¬ x.Plain d := by
  intro h
  have hreads := x.reads_of_plain d h
  obtain ⟨e, back, text, hlast, -, htext, -⟩ := h
  simp only [Reads, hrun] at hreads
  obtain ⟨front, hes⟩ := hlast.member
  have hok := d.ok e (hes ▸ List.mem_append_right _ List.mem_cons_self)
  obtain ⟨us, hus⟩ := hok.text.head_iff.mp (by rw [htext]; rfl)
  exact hreads.1 e back us hlast hus

theorem not_without_of_some {val : List Char} {len : Nat} (hrun : x.run body = some (val, len)) :
    ¬ x.Without d := by
  obtain ⟨text, rest, hfirst, -, rfl, -⟩ := x.run_eq_some_iff.mp hrun
  exact fun h => h.2.2 text rest hfirst

end Extractor

/-- The extractors read a member of an object exactly where it is written plainly and its name comes
first, or where there is no such member and no text that looks like one. -/
theorem extractor_reads_iff (x : Extractor) {body : List Char} {ms : List (List Nat × Value)}
    (h : parse body = some (.obj ms)) :
    Nonempty (Layout body ms) ∧ ∀ d : Layout body ms, x.Reads d ↔ x.Plain d ∨ x.Without d := by
  refine ⟨parse_object h, fun d => ?_⟩
  cases hrun : x.run body with
  | none =>
    rw [x.reads_iff_without d hrun]
    exact (or_iff_right (x.not_plain_of_none d hrun)).symm
  | some r =>
    rw [or_iff_left (x.not_without_of_some d hrun)]
    exact ⟨x.plain_of_reads d hrun, x.reads_of_plain d⟩

theorem extractor_reads_iff_submit :
    Nonempty (Layout "\x7b \"file\": \"//'A.B'\"\x7d".toList
      [(units "file".toList, .str (units "//'A.B'".toList))]) ∧
      ∀ d : Layout "\x7b \"file\": \"//'A.B'\"\x7d".toList
        [(units "file".toList, .str (units "//'A.B'".toList))],
        Extractor.jobsapi.Reads d ↔ Extractor.jobsapi.Plain d ∨ Extractor.jobsapi.Without d :=
  extractor_reads_iff .jobsapi (by rfl)

/-- The file of a nested object is taken for the one to submit. -/
theorem nested_file_is_taken :
    ∃ body ms, parse body = some (.obj ms) ∧ Nonempty (Layout body ms) ∧
      ∀ d : Layout body ms, ¬ Extractor.jobsapi.Reads d := by
  have hparse : parse "\x7b\"x\":\x7b\"file\":\"//'A.B'\"\x7d,\"file\":\"//'C.D'\"\x7d".toList =
      some (.obj [(units ['x'], .obj [(units "file".toList, .str (units "//'A.B'".toList))]),
        (units "file".toList, .str (units "//'C.D'".toList))]) := by
    rfl
  refine ⟨_, _, hparse, parse_object hparse, fun d hreads => ?_⟩
  have hrun : Extractor.jobsapi.run
      "\x7b\"x\":\x7b\"file\":\"//'A.B'\"\x7d,\"file\":\"//'C.D'\"\x7d".toList =
        some ("//'A.B'\"\x7d,\"file\":\"//'C.D'\"\x7d".toList, 7) := by
    decide +kernel
  have hscan : jobreqScan "file".toList
      "\x7b\"x\":\x7b\"file\":\"//'A.B'\"\x7d,\"file\":\"//'C.D'\"\x7d".toList =
        some (some (.string "//'C.D'\"\x7d".toList 7)) := by
    decide +kernel
  simp only [Extractor.Reads, hrun] at hreads
  obtain ⟨_, _, _, _, _, _, _, heq⟩ := hreads
  exact absurd (heq.symm.trans hscan) (by decide)

end Mvsmf
