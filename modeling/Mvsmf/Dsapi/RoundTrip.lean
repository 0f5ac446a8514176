import Mvsmf.Lib.Padding
import Mvsmf.Dsapi.Get
import Mvsmf.Dsapi.PutRecords

/-!
# What a GET returns of a PUT

Both sides decide for themselves what is of variable length, and both test the DCB's RECFM byte
against 2. That bit is the machine control character M and not V, so a binary PUT puts a record
descriptor word in front of the records of RECFM=FM, and a text GET trims the lines of RECFM=V. A
GET of RECFM=U asks for LRECL bytes, which are none.
-/

namespace Mvsmf

/-! ## The data set behind a PUT -/

/-- `fgets` with a buffer of `size` bytes. -/
def fgets (size : Nat) : Framer (List UInt8) UInt8 (List UInt8) :=
  Framer.cutter fun s => decide (s.getLast? = some NATIVE_NL ∨ size - 1 ≤ s.length)

theorem blocks_fit {n : Nat} (hn : 0 < n) (content : List UInt8) :
    ∀ b ∈ (Framer.blocks n).records [] content, b ≠ [] ∧ b.length ≤ n := by
  obtain ⟨hlen, hheld⟩ := Framer.blocks_run_length hn content [] hn
  intro b hb
  rcases List.mem_append.mp hb with hb | hb
  · have := hlen b hb
    exact ⟨List.ne_nil_of_length_pos (by omega), by omega⟩
  · have hflush : ∀ s : List UInt8, (Framer.blocks n).flush s = if s = [] then none else some s :=
      fun _ => rfl
    rw [hflush] at hb
    split at hb
    · cases hb
    · next h0 =>
      obtain rfl := Option.some.inj (Option.mem_toList.mp hb)
      exact ⟨h0, Nat.le_of_lt hheld⟩

/-- A data set with these records on it: `fread` gives their bytes in order, `fgets` the records as
they are with a newline behind each, and FILE has LRECL 0 for RECFM=U. -/
def storedFile (dcb : Dcb) (records : List (List UInt8)) : DsFile where
  dcb := { dcb with lrecl := if dcb.isUndefined then 0 else dcb.lrecl }
  reads n := if n = 0 then [] else (Framer.blocks n).records [] records.flatten
  lines size := (fgets size).records [] (records.flatMap (· ++ [NATIVE_NL]))
  ferror := false
  lrecl_undefined h := if_pos h
  reads_fit n b hb := by
    split at hb
    · cases hb
    · next hn => exact blocks_fit (Nat.pos_of_ne_zero hn) _ b hb

/-- The records one of the handlers leaves behind for a body when nothing fails. -/
inductive Leaves (x : Httpx) (dcb : Dcb) (dataType : DataType) (enc : FileEnc) (b : List UInt8) :
    List (List UInt8) → Prop
  | dataset {req : PutRequest} {c : Conn}
      (hd : parseDataType req.dataType = some (dataType, enc)) (hb : req.Brings c b) :
      Leaves x dcb dataType enc b (datasetRecords x .sound dcb req c)
  | member {isNew later : Bool} {req : PutRequest} {c : Conn}
      (hd : parseDataType req.dataType = some (dataType, enc)) (hb : req.Brings c b) :
      Leaves x dcb dataType enc b (memberRecords x .sound dcb isNew later req c)

/-- A data type header that parses as the type and the encoding. -/
theorem exists_header (dataType : DataType) (enc : FileEnc) (h : dataType = .text ∨ enc = .default) :
    ∃ v, parseDataType v = some (dataType, enc) := by
  cases dataType with
  | text =>
    cases enc with
    | default => exact ⟨none, rfl⟩
    | ibm037 => exact ⟨some "text;fileEncoding=IBM-037".toList, by decide +kernel⟩
    | ibm1047 => exact ⟨some "text;fileEncoding=IBM-1047".toList, by decide +kernel⟩
  | binary => exact ⟨some "binary".toList, by rw [h.resolve_left nofun]; decide +kernel⟩
  | record => exact ⟨some "record".toList, by rw [h.resolve_left nofun]; decide +kernel⟩

/-- Every body can be put. -/
theorem exists_leaves (x : Httpx) (dcb : Dcb) {dataType : DataType} {enc : FileEnc}
    (h : dataType = .text ∨ enc = .default) (b : List UInt8) :
    ∃ rs, Leaves x dcb dataType enc b rs := by
  obtain ⟨v, hv⟩ := exists_header dataType enc h
  obtain ⟨s, hs⟩ := Chunked.Coded.ofBody (P := Fits) (show 1 ≤ 8 by decide) (show 1 ≤ 8 by decide) b
    [Chunked.CR, Chunked.LF]
  have hb : PutRequest.Brings ⟨v, some "chunked".toList, none⟩ ⟨s, []⟩ b := ⟨_, hs, fun _ => rfl⟩
  exact ⟨_, .dataset hv hb⟩

/-- Where the handlers cut a body alike, every PUT leaves these records. -/
theorem Leaves.eq {x : Httpx} {dcb : Dcb} {dataType : DataType} {enc : FileEnc} {b : List UInt8}
    {rs : List (List UInt8)} (h : Leaves x dcb dataType enc b rs) (hp : dcb.piece ≠ 0)
    (hc : dcb.contentMax ≠ 0) (hu : dataType = .binary → dcb.isUndefined = false) :
    rs = (datasetJob x .sound dcb dataType enc).writes
      ((datasetJob x .sound dcb dataType enc).records b) := by
  cases h with
  | dataset hd hb => rw [datasetRecords_eq hd hb, if_neg (not_or.mpr ⟨hp, hc⟩)]
  | member hd hb =>
    rw [memberRecords_eq hd hb, if_neg (not_or.mpr ⟨hp, hc⟩), memberJob_writes,
      memberJob_records fun hbin hx => absurd hx (by rw [hu hbin]; nofun)]

/-! ## Binary -/

/-- A body filled up with zeros to a multiple of `n`. -/
def zeroPadded (n : Nat) (b : List UInt8) : List UInt8 :=
  b ++ List.replicate ((n - b.length % n) % n) 0

/-- Whatever the handler, the framing and a record count not below the number of records, a binary
GET returns what a binary PUT was given: filled up to full records, as it is for RECFM=U. -/
def BinaryRoundTrip (x : Httpx) (dcb : Dcb) (b : List UInt8) : Prop :=
  dcb.recfm &&& RECFM_TYPE ≠ RECFM_V → dcb.effLrecl ≠ 0 →
  ∀ enc rs, Leaves x dcb .binary enc b rs →
  ∀ maxRecords : Int, maxRecords = -1 ∨ (rs.length : Int) ≤ maxRecords → ∀ cp,
    (readAndSendDataset .sound (storedFile dcb rs) .binary cp maxRecords).sent.flatten =
      if dcb.isUndefined then b else zeroPadded dcb.lrecl b

theorem Dcb.lengths {dcb : Dcb} (hv : dcb.recfm &&& RECFM_TYPE ≠ RECFM_V) :
    dcb.piece = dcb.effLrecl ∧ dcb.contentMax = dcb.effLrecl := by
  have hs : ¬ (dcb.isUndefined = false ∧ reclimSpanned dcb.recfm = true) := by
    rintro ⟨-, hs⟩
    exact hv (of_decide_eq_true hs).1
  refine ⟨if_neg hs, ?_⟩
  unfold Dcb.contentMax reclimContentMax
  rw [if_neg hv, ite_self]

/-- A body cut into full records, the last of them filled up. -/
theorem PutJob.full_records (j : PutJob) (hb : j.dataType = .binary) (hp : 0 < j.dcb.piece)
    (hu : j.dcb.isUndefined = true → j.padsUndefined = true) (b : List UInt8) :
    (j.records b).flatten = zeroPadded j.dcb.piece b ∧
      ∀ r ∈ j.records b, r.length = j.dcb.piece := by
  obtain ⟨hflat, hlen, hlt⟩ := j.binary_given hb hp b
  have hmod := j.leftOver_length hb hp b
  rw [j.binary_records hb]
  unfold zeroPadded
  rw [← hmod]
  by_cases h0 : j.leftOver b = []
  · rw [h0, List.append_nil] at hflat
    rw [if_pos h0, h0]
    simp only [Option.toList_none, List.append_nil, List.length_nil, Nat.sub_zero, Nat.mod_self,
      List.replicate_zero]
    exact ⟨hflat, hlen⟩
  · have hpos := List.length_pos_of_ne_nil h0
    rw [if_neg h0, Option.toList_some, List.flatten_append, List.flatten_singleton,
      j.padded_full hu, ← List.append_assoc, hflat, Nat.mod_eq_of_lt (by omega)]
    refine ⟨rfl, fun r hr => ?_⟩
    rcases List.mem_append.mp hr with hr | hr
    · exact hlen r hr
    · rw [List.mem_singleton.mp hr, List.length_append, List.length_replicate]
      omega

theorem limited_of_le {maxRecords : Int} {ns : List (List UInt8)}
    (h : maxRecords = -1 ∨ (ns.length : Int) ≤ maxRecords) : limited maxRecords ns = ns := by
  unfold limited
  split
  · exact List.take_of_length_le (by omega)
  · rfl

/-- The blocks a binary GET sends of a data set. -/
theorem storedFile_sent (dcb : Dcb) (rs : List (List UInt8)) (cp : HttpCp) (maxRecords : Int) :
    (readAndSendDataset .sound (storedFile dcb rs) .binary cp maxRecords).sent =
      limited maxRecords ((storedFile dcb rs).reads (storedFile dcb rs).dcb.lrecl) := by
  rw [readAndSendDataset_binary _ _ _ rfl]

theorem storedFile_reads_undefined {dcb : Dcb} (hu : dcb.isUndefined = true)
    (rs : List (List UInt8)) :
    (storedFile dcb rs).reads (storedFile dcb rs).dcb.lrecl = [] := by
  rw [(storedFile dcb rs).lrecl_undefined hu, DsFile.reads_zero]

theorem storedFile_reads_fixed {dcb : Dcb} (hu : dcb.isUndefined = false) (h0 : dcb.lrecl ≠ 0)
    (rs : List (List UInt8)) :
    (storedFile dcb rs).reads (storedFile dcb rs).dcb.lrecl =
      (Framer.blocks dcb.lrecl).records [] rs.flatten := by
  have hl : (storedFile dcb rs).dcb.lrecl = dcb.lrecl :=
    if_neg (by rw [hu]; exact Bool.false_ne_true)
  rw [hl]
  exact if_neg h0

theorem zeroPadded_nil (n : Nat) : zeroPadded n [] = [] := by
  simp [zeroPadded]

/-- A binary body comes back but where a record descriptor word went in, with the bit 2 of RECFM
set, and where the reader asks for no bytes, for RECFM=U. -/
theorem binaryRoundTrip_iff (x : Httpx) (dcb : Dcb) (b : List UInt8) : BinaryRoundTrip x dcb b ↔
    (dcb.recfm &&& RECFM_TYPE ≠ RECFM_V → dcb.effLrecl ≠ 0 →
      b = [] ∨ dcb.isUndefined = false ∧ isVariable dcb.recfm = false) := by
  unfold BinaryRoundTrip
  refine forall_congr' fun hv => forall_congr' fun h0 => ?_
  obtain ⟨hpiece, hmax⟩ := Dcb.lengths hv
  have hp : dcb.piece ≠ 0 := by rw [hpiece]; exact h0
  have hc : dcb.contentMax ≠ 0 := by rw [hmax]; exact h0
  simp only [storedFile_sent]
  by_cases hu : dcb.isUndefined = true
  · simp only [storedFile_reads_undefined hu, limited_eq_nil.mpr (.inr rfl), List.flatten_nil,
      if_pos hu]
    constructor
    · intro h
      obtain ⟨rs, hrs⟩ := (exists_leaves x dcb (.inr rfl) b :
        ∃ rs, Leaves x dcb .binary .default b rs)
      exact .inl (h _ rs hrs (-1) (.inl rfl) .cp037).symm
    · rintro (rfl | ⟨hu', -⟩)
      · exact fun _ _ _ _ _ _ => rfl
      · rw [hu] at hu'
        cases hu'
  · rw [Bool.not_eq_true] at hu
    have heff : dcb.effLrecl = dcb.lrecl := if_neg (by rw [hu]; exact Bool.false_ne_true)
    rw [heff] at hpiece h0
    have hpos := Nat.pos_of_ne_zero h0
    have hjob : ∀ enc, (datasetJob x .sound dcb .binary enc).dcb.piece = dcb.lrecl :=
      fun _ => hpiece
    have hfull : ∀ enc, ((datasetJob x .sound dcb .binary enc).records b).flatten =
        zeroPadded dcb.lrecl b ∧
        ∀ r ∈ (datasetJob x .sound dcb .binary enc).records b, r.length = dcb.lrecl := by
      intro enc
      have := PutJob.full_records (datasetJob x .sound dcb .binary enc) rfl
        (by rw [hjob]; exact hpos) (fun h => absurd (hu.symm.trans h) Bool.false_ne_true) b
      rwa [hjob] at this
    have hwrites : ∀ enc, (datasetJob x .sound dcb .binary enc).writes
        ((datasetJob x .sound dcb .binary enc).records b) =
        ((datasetJob x .sound dcb .binary enc).records b).map
          (datasetJob x .sound dcb .binary enc).binaryOut :=
      fun enc => PutJob.writes_sound_binary _ rfl rfl (by rw [hjob]; exact hpos) b
    simp only [storedFile_reads_fixed hu h0, hu, Bool.false_eq_true, if_false, true_and]
    constructor
    · intro h
      by_contra hno
      rw [not_or, Bool.not_eq_false] at hno
      obtain ⟨hne, hvar⟩ := hno
      obtain ⟨rs, hrs⟩ := (exists_leaves x dcb (.inr rfl) b :
        ∃ rs, Leaves x dcb .binary .default b rs)
      have hsent := h .default rs hrs (-1) (.inl rfl) .cp037
      obtain ⟨hflat, hlen⟩ := hfull .default
      rw [limited_of_le (.inl rfl), hrs.eq hp hc fun _ => hu, hwrites, Framer.blocks,
        Framer.cutter_records_flatten, ← hflat] at hsent
      have hout : ∀ r ∈ ((datasetJob x .sound dcb .binary .default).records b).map
          (datasetJob x .sound dcb .binary .default).binaryOut, r.length = 4 + dcb.lrecl := by
        intro r hr
        obtain ⟨r', hr', rfl⟩ := List.mem_map.mp hr
        rw [PutJob.binaryOut_length, hlen r' hr',
          if_pos (show isVariable (datasetJob x .sound dcb .binary .default).dcb.recfm = true
            from hvar)]
      have hcount := congrArg List.length hsent
      rw [Framer.length_flatten_of_forall hout, Framer.length_flatten_of_forall hlen,
        List.length_map, Nat.add_mul] at hcount
      -- four more bytes for each record, so there is no record
      have hnil := List.eq_nil_of_length_eq_zero (show
        ((datasetJob x .sound dcb .binary .default).records b).length = 0 by omega)
      rw [hnil] at hflat
      exact hne (List.append_eq_nil_iff.mp hflat.symm).1
    · intro h enc rs hrs maxRecords hmx cp
      obtain ⟨hflat, hlen⟩ := hfull enc
      have hid : ((datasetJob x .sound dcb .binary enc).records b).map
          (datasetJob x .sound dcb .binary enc).binaryOut =
          (datasetJob x .sound dcb .binary enc).records b := by
        rcases h with rfl | hvar
        · rw [zeroPadded_nil] at hflat
          have hnil : (datasetJob x .sound dcb .binary enc).records [] = [] := by
            rw [List.eq_nil_iff_forall_not_mem]
            intro r hr
            have := hlen r hr
            rw [List.flatten_eq_nil_iff.mp hflat r hr, List.length_nil] at this
            omega
          rw [hnil]
          rfl
        · refine (List.map_congr_left fun r _ => ?_).trans (List.map_id _)
          exact if_neg (by
            rw [show isVariable (datasetJob x .sound dcb .binary enc).dcb.recfm = false from hvar]
            exact Bool.false_ne_true)
      rw [hrs.eq hp hc fun _ => hu, hwrites, hid] at hmx ⊢
      rw [Framer.blocks_records_flatten hpos hlen, limited_of_le hmx, hflat]

/-- Two bytes to a data set of fixed records of two, with machine control characters. -/
theorem binary_not_exact : ¬ BinaryRoundTrip ⟨.cp037, .cp037⟩ ⟨0x82, 2, 2⟩ [0x41, 0x42] := by
  intro h
  have hb : PutRequest.Brings ⟨some "binary".toList, none, some ['2']⟩
      ⟨[0x41, 0x42], []⟩ [0x41, 0x42] := brings_digit _ rfl rfl (by decide)
  have hd : parseDataType (some "binary".toList) = some (.binary, .default) := by decide +kernel
  exact absurd (h (by decide) (by decide) _ _ (.dataset hd hb) (-1) (.inl rfl) .cp037)
    (by decide +kernel)

/-! ## Text -/

/-- How a client ends a line. -/
inductive Eol
  | lf
  | cr
  | crlf
  deriving DecidableEq, Repr

def Eol.bytes : Eol → List UInt8
  | .lf => [ASCII_LF]
  | .cr => [ASCII_CR]
  | .crlf => [ASCII_CR, ASCII_LF]

/-- A body of lines. -/
def textBody (ls : List (List UInt8 × Eol)) : List UInt8 := ls.flatMap fun l => l.1 ++ l.2.bytes

/-- A line the text framer takes as a record. -/
structure TextLine (contentMax : Nat) (l : List UInt8) : Prop where
  ne_nil : l ≠ []
  fits : l.length ≤ contentMax
  noLF : ASCII_LF ∉ l
  noCR : ASCII_CR ∉ l
  noNUL : 0 ∉ l

theorem reclinePut_content {rl : Recline} {b : UInt8} (hlf : b ≠ ASCII_LF) (hcr : b ≠ ASCII_CR)
    (hfit : rl.buf.length < rl.contentMax) :
    reclinePut rl b = ({ rl with buf := rl.buf ++ [b], pendingLf := false }, none) := by
  unfold reclinePut
  rw [if_neg (fun h => hlf h.2), if_neg (fun h => h.elim hlf hcr), if_neg (Nat.not_le.mpr hfit)]

theorem reclinePut_lf {rl : Recline} (hp : rl.pendingLf = false) (hb : rl.buf ≠ []) :
    reclinePut rl ASCII_LF = ({ rl with buf := [], pendingLf := false }, some rl.buf) := by
  unfold reclinePut
  rw [if_neg (fun h => Bool.false_ne_true (hp.symm.trans h.1)), if_pos (.inl rfl), if_neg hb]
  rfl

theorem reclinePut_cr {rl : Recline} (hb : rl.buf ≠ []) :
    reclinePut rl ASCII_CR = ({ rl with buf := [], pendingLf := true }, some rl.buf) := by
  unfold reclinePut
  rw [if_neg (fun h => absurd h.2 (by decide)), if_pos (.inr rfl), if_neg hb]
  rfl

/-- The LF of a CRLF. -/
theorem reclinePut_crlf {rl : Recline} (hp : rl.pendingLf = true) :
    reclinePut rl ASCII_LF = ({ rl with pendingLf := false }, none) := if_pos ⟨hp, rfl⟩

section Framing

variable {j : PutJob}

theorem framer_put_text (ht : j.dataType = .text) (rl : Recline) (record : List UInt8)
    (b : UInt8) :
    j.framer.put (rl, record) b = (((reclinePut rl b).1, record), (reclinePut rl b).2) := by
  simp only [PutJob.framer, ht]

/-- The content of a line is held. -/
theorem run_content (ht : j.dataType = .text) (record : List UInt8) :
    ∀ (l : List UInt8) (rl : Recline), l ≠ [] → ASCII_LF ∉ l → ASCII_CR ∉ l →
    rl.buf.length + l.length ≤ rl.contentMax →
    j.framer.run (rl, record) l =
      (({ rl with buf := rl.buf ++ l, pendingLf := false }, record), [])
  | [], _, h, _, _, _ => absurd rfl h
  | b :: l, rl, _, hlf, hcr, hfit => by
    rw [List.length_cons] at hfit
    have hb : reclinePut rl b = ({ rl with buf := rl.buf ++ [b], pendingLf := false }, none) :=
      reclinePut_content (fun h => hlf (h ▸ List.mem_cons_self))
        (fun h => hcr (h ▸ List.mem_cons_self)) (by omega)
    simp only [Framer.run, framer_put_text ht, hb, Option.toList_none, List.nil_append]
    by_cases hl : l = []
    · subst hl
      rfl
    · rw [run_content ht record l _ hl (fun h => hlf (List.mem_cons_of_mem _ h))
        (fun h => hcr (List.mem_cons_of_mem _ h))
        (show (rl.buf ++ [b]).length + l.length ≤ rl.contentMax by
          rw [List.length_append, List.length_singleton]
          omega), List.append_assoc]
      rfl

/-- A line and its end give one record. -/
theorem run_line (ht : j.dataType = .text) (record : List UInt8) {l : List UInt8} (e : Eol)
    {rl : Recline} (hbuf : rl.buf = []) (hl : TextLine rl.contentMax l) :
    ∃ rl' : Recline, rl'.buf = [] ∧ rl'.contentMax = rl.contentMax ∧
      j.framer.run (rl, record) (l ++ e.bytes) = ((rl', record), [l]) := by
  have hrun := run_content ht record l rl hl.ne_nil hl.noLF hl.noCR
    (by rw [hbuf, List.length_nil, Nat.zero_add]; exact hl.fits)
  rw [hbuf, List.nil_append] at hrun
  have hcr : reclinePut ⟨l, rl.contentMax, false, rl.truncated⟩ ASCII_CR =
      (⟨[], rl.contentMax, true, rl.truncated⟩, some l) := reclinePut_cr hl.ne_nil
  have hlf : reclinePut ⟨l, rl.contentMax, false, rl.truncated⟩ ASCII_LF =
      (⟨[], rl.contentMax, false, rl.truncated⟩, some l) := reclinePut_lf rfl hl.ne_nil
  have hcrlf : reclinePut ⟨[], rl.contentMax, true, rl.truncated⟩ ASCII_LF =
      (⟨[], rl.contentMax, false, rl.truncated⟩, none) := reclinePut_crlf rfl
  simp only [Framer.run_append, hrun, List.nil_append]
  cases e with
  | lf =>
    refine ⟨⟨[], rl.contentMax, false, rl.truncated⟩, rfl, rfl, ?_⟩
    simp only [Eol.bytes, Framer.run, framer_put_text ht, hlf]
    rfl
  | cr =>
    refine ⟨⟨[], rl.contentMax, true, rl.truncated⟩, rfl, rfl, ?_⟩
    simp only [Eol.bytes, Framer.run, framer_put_text ht, hcr]
    rfl
  | crlf =>
    refine ⟨⟨[], rl.contentMax, false, rl.truncated⟩, rfl, rfl, ?_⟩
    simp only [Eol.bytes, Framer.run, framer_put_text ht, hcr, hcrlf]
    rfl

theorem run_textBody (ht : j.dataType = .text) (record : List UInt8) :
    ∀ (ls : List (List UInt8 × Eol)) (rl : Recline), rl.buf = [] →
    (∀ l ∈ ls, TextLine rl.contentMax l.1) →
    ∃ rl' : Recline, rl'.buf = [] ∧
      j.framer.run (rl, record) (textBody ls) = ((rl', record), ls.map Prod.fst)
  | [], rl, hbuf, _ => ⟨rl, hbuf, rfl⟩
  | (l, e) :: ls, rl, hbuf, h => by
    obtain ⟨rl₁, hbuf₁, hmax₁, hrun₁⟩ := run_line ht record e hbuf (h (l, e) List.mem_cons_self)
    obtain ⟨rl₂, hbuf₂, hrun₂⟩ := run_textBody ht record ls rl₁ hbuf₁
      fun l hl => hmax₁ ▸ h l (List.mem_cons_of_mem _ hl)
    refine ⟨rl₂, hbuf₂, ?_⟩
    rw [show textBody ((l, e) :: ls) = (l ++ e.bytes) ++ textBody ls from rfl, Framer.run_append,
      hrun₁, hrun₂]
    rfl

/-- The records of a body of lines are the lines. -/
theorem records_textBody (ht : j.dataType = .text) {ls : List (List UInt8 × Eol)}
    (h : ∀ l ∈ ls, TextLine j.dcb.contentMax l.1) :
    j.records (textBody ls) = ls.map Prod.fst := by
  obtain ⟨rl', hbuf, hrun⟩ := run_textBody ht [] ls (reclineInit j.dcb.contentMax) rfl h
  rw [PutJob.records, Framer.records, PutJob.fresh, hrun]
  have hflush : j.framer.flush (rl', []) = none := by
    simp only [PutJob.framer, ht]
    exact if_pos hbuf
  simp only [hflush]
  exact List.append_nil _

/-- What is stored of the lines. -/
theorem stored_textBody (ht : j.dataType = .text) {ls : List (List UInt8)}
    (h : ∀ l ∈ ls, TextLine j.dcb.contentMax l) :
    (∀ l ∈ ls, j.out l ≠ none) ∧ j.stored ls = ls.map (List.map j.cp.atoe) := by
  have hout : ∀ l ∈ ls, j.out l = some (l.map j.cp.atoe) := by
    intro l hl
    unfold PutJob.out recordOut
    simp only [ht]
    rw [if_neg (fun hx => absurd (h l hl).fits (Nat.not_le.mpr hx.2))]
  refine ⟨fun l hl => by rw [hout l hl]; exact nofun, ?_⟩
  induction ls with
  | nil => rfl
  | cons l ls ih =>
    rw [← List.singleton_append, PutJob.stored_append,
      j.stored_single (hout l List.mem_cons_self)
        (by simpa using (h l List.mem_cons_self).ne_nil),
      ih (fun l hl => h l (List.mem_cons_of_mem _ hl))
        fun l hl => hout l (List.mem_cons_of_mem _ hl)]
    rfl

end Framing

/-! ## The lines read back -/

def RECFM_F : UInt8 := 0x80

/-- A text record as the access method stores it: of RECFM=F it is filled up with blanks. -/
def storedText (dcb : Dcb) (record : List UInt8) : List UInt8 :=
  if dcb.recfm &&& RECFM_TYPE = RECFM_F then
    record ++ List.replicate (dcb.lrecl - record.length) NATIVE_BLANK
  else record

/-- The tables undo each other on the characters of the lines, the newline and the blank. -/
structure Readable (cp : HttpCp) (ls : List (List UInt8)) : Prop where
  inverse : ∀ l ∈ ls, ∀ b ∈ l, cp.etoa (cp.atoe b) = b
  newline : cp.etoa NATIVE_NL = ASCII_LF
  blank : cp.atoe ASCII_BLANK = NATIVE_BLANK ∧ cp.etoa NATIVE_BLANK = ASCII_BLANK
  nul : cp.etoa 0 = 0

/-- A line without its trailing blanks. -/
def stripped (l : List UInt8) : List UInt8 := l.rdropWhile (· = ASCII_BLANK)

theorem rdropWhile_map {p q : UInt8 → Bool} {f : UInt8 → UInt8} (l : List UInt8) :
    (∀ b ∈ l, p (f b) = q b) → (l.map f).rdropWhile p = (l.rdropWhile q).map f := by
  induction l using List.reverseRecOn with
  | nil => intro _; simp
  | append_singleton l b ih =>
    intro h
    have hb := h b (by simp)
    rw [List.map_append, List.map_singleton, List.rdropWhile_concat, List.rdropWhile_concat, hb]
    split
    · exact ih fun b hb => h b (List.mem_append_left _ hb)
    · rw [List.map_append, List.map_singleton]

theorem stripped_eq_self {l : List UInt8} : stripped l = l ↔ l.getLast? ≠ some ASCII_BLANK := by
  unfold stripped
  rw [List.rdropWhile_eq_self_iff]
  constructor
  · intro h hl
    have hne : l ≠ [] := by
      rintro rfl
      cases hl
    rw [List.getLast?_eq_some_getLast hne] at hl
    exact h hne (decide_eq_true (Option.some.inj hl))
  · intro h hne hlast
    exact h (by rw [List.getLast?_eq_some_getLast hne]; exact congrArg some (of_decide_eq_true hlast))

theorem fgets_lines {n : Nat} : ∀ {rs : List (List UInt8)},
    (∀ r ∈ rs, NATIVE_NL ∉ r ∧ r.length ≤ n) →
    (fgets (n + 2)).records [] (rs.flatMap (· ++ [NATIVE_NL])) = rs.map (· ++ [NATIVE_NL]) := by
  intro rs h
  have key : (fgets (n + 2)).run [] (rs.flatMap (· ++ [NATIVE_NL])) =
      ([], rs.map (· ++ [NATIVE_NL])) := by
    induction rs with
    | nil => rfl
    | cons r rs ih =>
      obtain ⟨hnl, hlen⟩ := h r List.mem_cons_self
      rw [List.flatMap_cons, List.append_assoc, List.singleton_append, fgets,
        Framer.cutter_run_cons (by simp), ← fgets, ih fun r hr => h r (List.mem_cons_of_mem _ hr)]
      · rfl
      · intro t ht hne
        have hle := ht.length_le
        refine decide_eq_false ?_
        rintro (hlast | hfull)
        · exact hnl (ht.subset (List.mem_of_getLast? hlast))
        · omega
  rw [Framer.records, key]
  exact List.append_nil _

theorem strlen_line {r : List UInt8} (h0 : 0 ∉ r) :
    strlen (r ++ [NATIVE_NL]) = r ++ [NATIVE_NL] := by
  unfold strlen
  rw [List.takeWhile_eq_self_iff]
  intro b hb
  rcases List.mem_append.mp hb with hb | hb
  · exact decide_eq_true fun h => h0 (h ▸ hb)
  · rw [List.mem_singleton.mp hb]
    rfl

/-- What a text GET sends of a record. -/
theorem textLine_record (recfm : UInt8) (cp : HttpCp) {r : List UInt8} (h0 : 0 ∉ r) :
    textLine recfm cp (r ++ [NATIVE_NL]) =
      ((if isFixed recfm then r.rdropWhile (· = NATIVE_BLANK) else r) ++ [NATIVE_NL]).map
        cp.etoa := by
  unfold textLine trimmed
  simp only [strlen_line h0]
  by_cases hf : isFixed recfm = true
  · rw [if_pos ⟨hf, by simp⟩, if_pos hf, if_pos (by simp), List.dropLast_concat]
  · rw [if_neg (fun h => hf h.1), if_neg hf]

section ReadBack

variable {dcb : Dcb} {cp : HttpCp} {ls : List (List UInt8)} {l : List UInt8}

theorem Readable.not_mem (h : Readable cp ls) (hl : l ∈ ls) {c b : UInt8} (hc : cp.etoa c = b)
    (hb : b ∉ l) : c ∉ l.map cp.atoe := by
  intro hm
  obtain ⟨a, ha, rfl⟩ := List.mem_map.mp hm
  rw [h.inverse l hl a ha] at hc
  exact hb (hc ▸ ha)

theorem Readable.map (h : Readable cp ls) (hl : l ∈ ls) :
    (l.map cp.atoe).map cp.etoa = l := by
  rw [List.map_map]
  exact (List.map_congr_left fun b hb => h.inverse l hl b hb).trans (List.map_id l)

/-- What a text GET sends of a line. -/
def readBack (dcb : Dcb) (l : List UInt8) : List UInt8 :=
  (if isFixed dcb.recfm then stripped l
    else if dcb.recfm &&& RECFM_TYPE = RECFM_F then
      l ++ List.replicate (dcb.lrecl - l.length) ASCII_BLANK
    else l) ++ [ASCII_LF]

theorem textLine_line (h : Readable cp ls) (hl : l ∈ ls) (hnul : 0 ∉ l) :
    textLine dcb.recfm cp (storedText dcb (l.map cp.atoe) ++ [NATIVE_NL]) = readBack dcb l := by
  have hblank : NATIVE_BLANK ≠ 0 := by decide
  have h0 : 0 ∉ l.map cp.atoe := h.not_mem hl h.nul hnul
  have hstrip : (l.map cp.atoe).rdropWhile (· = NATIVE_BLANK) = (stripped l).map cp.atoe := by
    refine rdropWhile_map l fun b hb => ?_
    rw [decide_eq_decide]
    constructor
    · intro hx
      rw [← h.inverse l hl b hb, hx]
      exact h.blank.2
    · rintro rfl
      exact h.blank.1
  have hmap : ((stripped l).map cp.atoe).map cp.etoa = stripped l := by
    rw [List.map_map]
    exact (List.map_congr_left fun b hb =>
      h.inverse l hl b ((List.rdropWhile_prefix _ _).subset hb)).trans (List.map_id _)
  unfold storedText readBack
  by_cases hF : dcb.recfm &&& RECFM_TYPE = RECFM_F
  · rw [if_pos hF, if_pos hF, textLine_record _ _ (by
      simp [List.mem_append, h0, List.mem_replicate, hblank.symm]), List.map_append,
      List.map_singleton, h.newline]
    by_cases hf : isFixed dcb.recfm = true
    · have hpad : ∀ n, (l.map cp.atoe ++ List.replicate n NATIVE_BLANK).rdropWhile
          (· = NATIVE_BLANK) = (l.map cp.atoe).rdropWhile (· = NATIVE_BLANK) :=
        Padding.rdropWhile_pad (decide_eq_true rfl)
      rw [if_pos hf, if_pos hf, hpad, hstrip, hmap]
    · rw [if_neg hf, if_neg hf, List.map_append, h.map hl, List.map_replicate, h.blank.2,
        List.length_map]
  · rw [if_neg hF, if_neg hF, textLine_record _ _ h0, List.map_append, List.map_singleton,
      h.newline]
    by_cases hf : isFixed dcb.recfm = true
    · rw [if_pos hf, if_pos hf, hstrip, hmap]
    · rw [if_neg hf, if_neg hf, h.map hl]

/-- A text GET of the lines on a data set. -/
theorem storedFile_text (hu : dcb.isUndefined = false) (h : Readable cp ls)
    (hls : ∀ l ∈ ls, TextLine dcb.contentMax l) (hmax : dcb.contentMax ≤ dcb.lrecl) :
    (readAndSendDataset .sound
      (storedFile dcb ((ls.map (List.map cp.atoe)).map (storedText dcb))) .text cp (-1)).sent =
      ls.map (readBack dcb) := by
  have hlrecl : ∀ rs, (storedFile dcb rs).dcb.lrecl = dcb.lrecl :=
    fun _ => if_neg (by rw [hu]; exact Bool.false_ne_true)
  rw [readAndSendDataset_text _ _ _ rfl, hlrecl]
  simp only [storedFile]
  rw [fgets_lines, List.map_map, List.map_map, List.map_map]
  · exact List.map_congr_left fun l hl => textLine_line h hl (hls l hl).noNUL
  · intro r hr
    rw [List.map_map] at hr
    obtain ⟨l, hl, rfl⟩ := List.mem_map.mp hr
    have hfit : l.length ≤ dcb.lrecl := Nat.le_trans (hls l hl).fits hmax
    have hnl : NATIVE_NL ∉ l.map cp.atoe := h.not_mem hl h.newline (hls l hl).noLF
    have hblank : NATIVE_NL ≠ NATIVE_BLANK := by decide
    simp only [Function.comp, storedText]
    split
    · refine ⟨by simp [hnl, List.mem_replicate, hblank], ?_⟩
      rw [List.length_append, List.length_replicate, List.length_map]
      omega
    · exact ⟨hnl, by rwa [List.length_map]⟩

end ReadBack

/-- Whatever the handler and the framing, a text GET of RECFM=F or V returns the lines of a text PUT
in the same encoding, each with one newline behind it, and without their trailing blanks for
RECFM=F only. -/
def TextRoundTrip (x : Httpx) (enc : FileEnc) (dcb : Dcb) (ls : List (List UInt8 × Eol)) : Prop :=
  dcb.recfm &&& RECFM_TYPE = RECFM_F ∨ dcb.recfm &&& RECFM_TYPE = RECFM_V →
  (∀ l ∈ ls.map Prod.fst, TextLine dcb.contentMax l) →
  Readable (dsCodepage x enc) (ls.map Prod.fst) →
  ∀ rs, Leaves x dcb .text enc (textBody ls) rs →
    (readAndSendDataset .sound (storedFile dcb (rs.map (storedText dcb))) .text
      (dsCodepage x enc) (-1)).sent.flatten =
    (ls.map Prod.fst).flatMap fun l =>
      (if dcb.recfm &&& RECFM_TYPE = RECFM_F then stripped l else l) ++ [ASCII_LF]

theorem Dcb.piece_pos {dcb : Dcb} (h : dcb.contentMax ≠ 0) : dcb.piece ≠ 0 := by
  have hle : dcb.contentMax ≤ dcb.effLrecl := by
    unfold Dcb.contentMax reclimContentMax
    split
    · exact Nat.le_refl _
    · split
      · exact Nat.sub_le _ _
      · exact Nat.le_refl _
  unfold Dcb.piece reclimBinaryPiece
  split
  · exact h
  · omega

/-- Every PUT of the lines leaves them translated. -/
theorem Leaves.lines {x : Httpx} {dcb : Dcb} {enc : FileEnc} {ls : List (List UInt8 × Eol)}
    {rs : List (List UInt8)} (h : Leaves x dcb .text enc (textBody ls) rs)
    (hls : ∀ l ∈ ls.map Prod.fst, TextLine dcb.contentMax l) :
    rs = (ls.map Prod.fst).map (List.map (dsCodepage x enc).atoe) := by
  have hwrites : (datasetJob x .sound dcb .text enc).writes
      ((datasetJob x .sound dcb .text enc).records (textBody ls)) =
      (ls.map Prod.fst).map (List.map (dsCodepage x enc).atoe) := by
    rw [records_textBody rfl fun l hl => hls l.1 (List.mem_map_of_mem hl)]
    obtain ⟨hout, hst⟩ := stored_textBody (j := datasetJob x .sound dcb .text enc) rfl hls
    rw [PutJob.writes_sound _ rfl hout, hst]
    rfl
  by_cases hc : dcb.contentMax = 0
  · -- no line fits, so there is none
    have hnil : ls = [] := by
      cases ls with
      | nil => rfl
      | cons l ls =>
        have hl := hls l.1 (List.mem_map_of_mem List.mem_cons_self)
        exact absurd hl.fits (Nat.not_le.mpr (hc ▸ List.length_pos_of_ne_nil hl.ne_nil))
    subst hnil
    cases h with
    | dataset hd hb => rw [datasetRecords_eq hd hb, if_pos (.inr hc)]; rfl
    | member hd hb => rw [memberRecords_eq hd hb, if_pos (.inr hc)]; rfl
  · rw [h.eq (Dcb.piece_pos hc) hc nofun, hwrites]

theorem flatMap_length_eq {f g : List UInt8 → List UInt8} {ls : List (List UInt8)}
    (hle : ∀ l ∈ ls, (f l).length ≤ (g l).length) (h : ls.flatMap f = ls.flatMap g) :
    ∀ l ∈ ls, (f l).length = (g l).length := by
  have hsum : ∀ {ls : List (List UInt8)}, (∀ l ∈ ls, (f l).length ≤ (g l).length) →
      (ls.flatMap f).length ≤ (ls.flatMap g).length := by
    intro ls
    induction ls with
    | nil => exact fun _ => Nat.le_refl _
    | cons l ls ih =>
      intro hle
      have h1 := hle l List.mem_cons_self
      have h2 := ih fun l hl => hle l (List.mem_cons_of_mem _ hl)
      rw [List.flatMap_cons, List.flatMap_cons, List.length_append, List.length_append]
      omega
  induction ls with
  | nil => exact fun l hl => (nomatch hl)
  | cons l ls ih =>
    have h1 := hle l List.mem_cons_self
    have hle' := fun l hl => hle l (List.mem_cons_of_mem _ hl)
    have h2 := hsum hle'
    have hlen := congrArg List.length h
    rw [List.flatMap_cons, List.flatMap_cons, List.length_append, List.length_append] at hlen
    have heq : (f l).length = (g l).length := by omega
    rw [List.flatMap_cons, List.flatMap_cons] at h
    have htail := (List.append_inj h heq).2
    intro l' hl'
    rcases List.mem_cons.mp hl' with rfl | hl'
    · exact heq
    · exact ih hle' htail l' hl'

theorem stripped_length (l : List UInt8) : (stripped l).length ≤ l.length :=
  (List.rdropWhile_prefix _ _).length_le

theorem stripped_of_length {l : List UInt8} (h : (stripped l).length = l.length) :
    stripped l = l :=
  (List.rdropWhile_prefix _ _).eq_of_length h

/-- Records of RECFM=F read back are the stripped lines when the reader trims them or there is
nothing to trim. -/
theorem readBack_fixed {dcb : Dcb} (hF : dcb.recfm &&& RECFM_TYPE = RECFM_F)
    {ls : List (List UInt8)} (hfit : ∀ l ∈ ls, l.length ≤ dcb.lrecl) :
    ls.flatMap (readBack dcb) = ls.flatMap (fun l => stripped l ++ [ASCII_LF]) ↔
      isFixed dcb.recfm = true ∨
        ∀ l ∈ ls, l.length = dcb.lrecl ∧ l.getLast? ≠ some ASCII_BLANK := by
  by_cases hf : isFixed dcb.recfm = true
  · have hread : readBack dcb = fun l => stripped l ++ [ASCII_LF] := by
      funext l
      rw [readBack, if_pos hf]
    exact iff_of_true (by rw [hread]) (.inl hf)
  have hread : ∀ l, readBack dcb l =
      (l ++ List.replicate (dcb.lrecl - l.length) ASCII_BLANK) ++ [ASCII_LF] := by
    intro l
    rw [readBack, if_neg hf, if_pos hF]
  have hlen : ∀ l, (readBack dcb l).length = l.length + (dcb.lrecl - l.length) + 1 := by
    intro l
    rw [hread, List.length_append, List.length_append, List.length_replicate]
    rfl
  constructor
  · intro h
    refine .inr fun l hl => ?_
    have heq := flatMap_length_eq (fun l _ => ?_) h.symm l hl
    · rw [hlen, List.length_append, List.length_singleton] at heq
      have hle := stripped_length l
      have hfit := hfit l hl
      exact ⟨by omega, stripped_eq_self.mp (stripped_of_length (by omega))⟩
    · rw [hlen, List.length_append, List.length_singleton]
      have := stripped_length l
      omega
  · intro h
    refine List.flatMap_congr fun l hl => ?_
    obtain ⟨hfull, hlast⟩ := h.resolve_left hf l hl
    rw [hread, hfull, Nat.sub_self, List.replicate_zero, List.append_nil,
      stripped_eq_self.mpr hlast]

/-- Records of RECFM=V read back are the lines when the reader does not trim them or there is
nothing to trim. -/
theorem readBack_variable {dcb : Dcb} (hF : dcb.recfm &&& RECFM_TYPE ≠ RECFM_F)
    (ls : List (List UInt8)) :
    ls.flatMap (readBack dcb) = ls.flatMap (fun l => l ++ [ASCII_LF]) ↔
      isFixed dcb.recfm = false ∨ ∀ l ∈ ls, l.getLast? ≠ some ASCII_BLANK := by
  by_cases hf : isFixed dcb.recfm = true
  · have hread : ∀ l, readBack dcb l = stripped l ++ [ASCII_LF] := by
      intro l
      rw [readBack, if_pos hf]
    constructor
    · intro h
      refine .inr fun l hl => ?_
      have heq := flatMap_length_eq (fun l _ => ?_) h l hl
      · rw [hread, List.length_append, List.length_append] at heq
        exact stripped_eq_self.mp (stripped_of_length (by omega))
      · rw [hread, List.length_append, List.length_append]
        have := stripped_length l
        omega
    · intro h
      refine List.flatMap_congr fun l hl => ?_
      rw [hread, stripped_eq_self.mpr ((h.resolve_left (by rw [hf]; nofun)) l hl)]
  · have hread : readBack dcb = fun l => l ++ [ASCII_LF] := by
      funext l
      rw [readBack, if_neg hf, if_neg hF]
    exact iff_of_true (by rw [hread]) (.inl (Bool.eq_false_iff.mpr hf))

/-- The lines come back but where blanks that count are trimmed, of RECFM=V without the bit 2, and
where blanks that do not count are left, of RECFM=F with it. -/
theorem textRoundTrip_iff (x : Httpx) (enc : FileEnc) (dcb : Dcb)
    (ls : List (List UInt8 × Eol)) : TextRoundTrip x enc dcb ls ↔
    (dcb.recfm &&& RECFM_TYPE = RECFM_F ∨ dcb.recfm &&& RECFM_TYPE = RECFM_V →
      (∀ l ∈ ls.map Prod.fst, TextLine dcb.contentMax l) →
      Readable (dsCodepage x enc) (ls.map Prod.fst) →
      (dcb.recfm &&& RECFM_TYPE = RECFM_F → isFixed dcb.recfm = true ∨
        ∀ l ∈ ls.map Prod.fst, l.length = dcb.lrecl ∧ l.getLast? ≠ some ASCII_BLANK) ∧
      (dcb.recfm &&& RECFM_TYPE = RECFM_V → isFixed dcb.recfm = false ∨
        ∀ l ∈ ls.map Prod.fst, l.getLast? ≠ some ASCII_BLANK)) := by
  unfold TextRoundTrip
  refine forall_congr' fun htype => forall_congr' fun hls => forall_congr' fun hread => ?_
  have hu : dcb.isUndefined = false := by
    refine decide_eq_false ?_
    rcases htype with h | h <;> rw [h] <;> decide
  have hmax : dcb.contentMax ≤ dcb.lrecl := by
    unfold Dcb.contentMax reclimContentMax Dcb.effLrecl
    rw [if_neg (show ¬ dcb.isUndefined = true by rw [hu]; exact Bool.false_ne_true),
      if_neg (show ¬ dcb.isUndefined = true by rw [hu]; exact Bool.false_ne_true)]
    split
    · exact Nat.sub_le _ _
    · exact Nat.le_refl _
  have hsent : ∀ rs, Leaves x dcb .text enc (textBody ls) rs →
      (readAndSendDataset .sound (storedFile dcb (rs.map (storedText dcb))) .text
        (dsCodepage x enc) (-1)).sent.flatten = (ls.map Prod.fst).flatMap (readBack dcb) := by
    intro rs hrs
    rw [hrs.lines hls, storedFile_text hu hread hls hmax]
    rfl
  have hone : (∀ rs, Leaves x dcb .text enc (textBody ls) rs →
      (readAndSendDataset .sound (storedFile dcb (rs.map (storedText dcb))) .text
        (dsCodepage x enc) (-1)).sent.flatten =
      (ls.map Prod.fst).flatMap fun l =>
        (if dcb.recfm &&& RECFM_TYPE = RECFM_F then stripped l else l) ++ [ASCII_LF]) ↔
      (ls.map Prod.fst).flatMap (readBack dcb) = (ls.map Prod.fst).flatMap fun l =>
        (if dcb.recfm &&& RECFM_TYPE = RECFM_F then stripped l else l) ++ [ASCII_LF] := by
    constructor
    · intro h
      obtain ⟨rs, hrs⟩ := exists_leaves x dcb (.inl rfl) (textBody ls)
      rw [← hsent rs hrs, h rs hrs]
    · intro h rs hrs
      rw [hsent rs hrs, h]
  rw [hone]
  rcases htype with hF | hV
  · simp only [hF, if_true, true_implies]
    rw [and_iff_left (fun h => absurd h (by decide))]
    exact readBack_fixed hF fun l hl => Nat.le_trans (hls l hl).fits hmax
  · have hnF : dcb.recfm &&& RECFM_TYPE ≠ RECFM_F := by rw [hV]; decide
    simp only [hV, true_implies]
    rw [and_iff_right (fun h => absurd h (by decide))]
    exact readBack_variable hnF _

/-- The line "A " on a data set of variable-length records comes back without its blank. -/
theorem text_blank_lost : ¬ TextRoundTrip ⟨.cp037, .cp037⟩ .default ⟨0x50, 84, 800⟩
    [([0x41, 0x20], .lf)] := by
  intro h
  have hb : PutRequest.Brings ⟨none, none, some ['3']⟩ ⟨[0x41, 0x20, 0x0A], []⟩
      (textBody [([0x41, 0x20], .lf)]) := brings_digit _ rfl rfl (by decide)
  have hls : ∀ l ∈ [([0x41, 0x20], Eol.lf)].map Prod.fst,
      TextLine (Dcb.contentMax ⟨0x50, 84, 800⟩) l := by
    intro l hl
    cases List.mem_singleton.mp hl
    exact ⟨by decide, by decide, by decide, by decide, by decide⟩
  have hread : Readable HttpCp.cp037 ([([0x41, 0x20], Eol.lf)].map Prod.fst) :=
    ⟨fun _ _ b _ => HttpCp.cp037_etoa_atoe b, by decide +kernel, by decide +kernel,
      by decide +kernel⟩
  exact absurd (h (.inr (by decide)) hls hread _ (.dataset rfl hb)) (by decide +kernel)

end Mvsmf
