import Mvsmf.Dsapi.PutSafety

/-!
# The records a PUT writes

What is on the target behind a well-formed body is a function of the records of the body and the
access method alone (`putBody_records`), so it does not depend on the framing. The two handlers
cut a body into the same records but for the last one of a binary body: the member handler fills
it up for RECFM=U as well, and the sequential handler does not.
-/

namespace Mvsmf

namespace PutJob

variable (j : PutJob)

/-! ## Records on an open target -/

/-- The records on a target that held `old`, once the access method was given `rs` up to the first
one it does not take. -/
def puts (old : List (List UInt8)) : List (List UInt8) → List (List UInt8)
  | [] => old
  | r :: rs =>
    let (t, rc) := j.writeRecord ⟨[], old⟩ r
    if rc < 0 then t.records else puts t.records rs

/-- The records on a target that is opened for a PUT, if it opens. -/
def writes (rs : List (List UInt8)) : List (List UInt8) :=
  if j.am.opens then j.puts [] rs else []

/-- What a record does to the target does not depend on when the target was opened. -/
theorem writeRecord_unread (u u' : List UInt8) (old : List (List UInt8)) (record : List UInt8) :
    (j.writeRecord ⟨u, old⟩ record).1.records = (j.writeRecord ⟨u', old⟩ record).1.records ∧
      (j.writeRecord ⟨u, old⟩ record).2 = (j.writeRecord ⟨u', old⟩ record).2 := by
  unfold writeRecord
  cases j.out record with
  | none => exact ⟨rfl, rfl⟩
  | some r =>
    cases r with
    | nil => exact ⟨rfl, rfl⟩
    | cons b r =>
      simp only
      cases j.am.put old.length with
      | short => exact ⟨rfl, rfl⟩
      | flushed err =>
        simp only
        split
        · exact ⟨rfl, rfl⟩
        · exact ⟨rfl, rfl⟩

/-- A target that is open, or that opens. -/
def CanOpen (fp : Option Target) : Prop := fp.isSome = true ∨ j.am.opens = true

theorem openWriteTarget_canOpen {fp : Option Target} (h : j.CanOpen fp) (unread : List UInt8) :
    ∃ u, openWriteTarget j.am unread fp = some ⟨u, onTarget fp⟩ := by
  cases fp with
  | some t => exact ⟨t.unread, rfl⟩
  | none =>
    refine ⟨unread, ?_⟩
    rw [openWriteTarget, if_pos (h.resolve_left nofun)]
    rfl

/-- One record, in terms of `puts`. -/
theorem putRecord_puts {fp : Option Target} (h : j.CanOpen fp) (message : String)
    (unread record : List UInt8) :
    (∃ fp', j.putRecord message fp unread record = .ok fp' ∧ j.CanOpen fp' ∧
      ∀ rs, j.puts (onTarget fp) (record :: rs) = j.puts (onTarget fp') rs) ∨
    ∃ fp', j.putRecord message fp unread record = .error (message, fp') ∧
      ∀ rs, j.puts (onTarget fp) (record :: rs) = onTarget fp' := by
  obtain ⟨u, hu⟩ := j.openWriteTarget_canOpen h unread
  obtain ⟨hrec, hrc⟩ := j.writeRecord_unread [] u (onTarget fp) record
  have hput : ∀ rs, j.puts (onTarget fp) (record :: rs) =
      if (j.writeRecord ⟨u, onTarget fp⟩ record).2 < 0 then
        (j.writeRecord ⟨u, onTarget fp⟩ record).1.records
      else j.puts (j.writeRecord ⟨u, onTarget fp⟩ record).1.records rs := by
    intro rs
    rw [← hrec, ← hrc]
    rfl
  unfold putRecord writeRecordOpen
  simp only [hu]
  rcases j.writeRecord_cases ⟨u, onTarget fp⟩ record with hw | hw | ⟨-, hw⟩ <;>
    simp only [hw] at hput ⊢
  · exact .inr ⟨_, rfl, hput⟩
  · exact .inr ⟨_, rfl, hput⟩
  · exact .inl ⟨_, rfl, .inl rfl, hput⟩

/-- The delivered bytes, in terms of `puts`. -/
theorem drive_puts (ds : List (UInt8 × List UInt8)) : ∀ (h : Held) (fp : Option Target),
    j.CanOpen fp →
    match j.framer.drive j.sink h fp ds with
    | .ok (h', fp') => h' = (j.framer.run h (ds.map Prod.fst)).1 ∧ j.CanOpen fp' ∧
      ∀ rs, j.puts (onTarget fp) ((j.framer.run h (ds.map Prod.fst)).2 ++ rs) =
        j.puts (onTarget fp') rs
    | .error (_, fp') => ∀ rs,
      j.puts (onTarget fp) ((j.framer.run h (ds.map Prod.fst)).2 ++ rs) = onTarget fp' := by
  induction ds with
  | nil => exact fun h fp hfp => ⟨rfl, hfp, fun rs => rfl⟩
  | cons p ds ih =>
    intro h fp hfp
    obtain ⟨b, u⟩ := p
    simp only [Framer.drive, List.map_cons, Framer.run]
    rcases hput : j.framer.put h b with ⟨h₁, _ | r⟩
    · simpa only [Option.toList_none, List.nil_append] using ih h₁ fp hfp
    · simp only [Option.toList_some, List.cons_append]
      rcases j.putRecord_puts hfp "Error writing record" u r with
        ⟨fp', hok, hfp', hputs⟩ | ⟨fp', herr, hputs⟩
      · rw [show j.sink fp u r = _ from hok]
        simp only [hputs]
        exact ih h₁ fp' hfp'
      · rw [show j.sink fp u r = _ from herr]
        exact fun rs => hputs _

/-- The record still held, in terms of `puts`. -/
theorem conclude_puts {fp : Option Target} (hfp : j.CanOpen fp) (h : Held) (rest : List UInt8) :
    (∃ fp', j.conclude h fp rest = .ok fp' ∧ j.CanOpen fp' ∧
      j.puts (onTarget fp) (j.framer.flush h).toList = onTarget fp') ∨
    ∃ x, j.conclude h fp rest = .error x ∧
      j.puts (onTarget fp) (j.framer.flush h).toList = onTarget x.2 := by
  unfold conclude
  cases j.framer.flush h with
  | none => exact .inl ⟨fp, rfl, hfp, rfl⟩
  | some r =>
    rcases j.putRecord_puts hfp "Error writing final record" rest r with
      ⟨fp', hok, hfp', hputs⟩ | ⟨fp', herr, hputs⟩
    · exact .inl ⟨fp', hok, hfp', hputs []⟩
    · exact .inr ⟨_, herr, hputs []⟩

/-- At a good end only the record still held can fail. -/
theorem ended_well {e : Ending} (hw : e.Well) (h : Held) (fp : Option Target) :
    ∃ rest unread, j.ended h fp e = (j.conclude h fp rest).map fun fp => (fp, unread) := by
  cases e with
  | cut m => exact hw.elim
  | all rest => exact ⟨rest, rest, rfl⟩
  | last rest =>
    have hcrlf : rest.take 2 = [Chunked.CR, Chunked.LF] := hw
    refine ⟨rest, rest.drop 2, ?_⟩
    simp only [ended, hcrlf]
    cases j.conclude h fp rest <;> rfl

theorem outcome_fp {fp fp' : Option Target} {ds : List (UInt8 × List UInt8)} {e : Ending}
    {h : Held} (hd : j.framer.drive j.sink j.fresh fp ds = .ok (h, fp')) :
    (∀ x, j.ended h fp' e = .error x → (j.outcome fp ds e).fp = x.2) ∧
    ∀ fp'' unread, j.ended h fp' e = .ok (fp'', unread) →
      (j.outcome fp ds e).fp = openWriteTarget j.am unread fp'' := by
  unfold outcome
  rw [hd]
  refine ⟨fun x hx => by simp only [hx], fun fp'' unread hx => ?_⟩
  simp only [hx]
  cases openWriteTarget j.am unread fp'' with
  | none => rfl
  | some t =>
    simp only
    split
    · rfl
    · split <;> rfl

/-- Behind a body with a good end its records have been put on the target. -/
theorem outcome_puts {fp : Option Target} (hfp : j.CanOpen fp)
    (ds : List (UInt8 × List UInt8)) {e : Ending} (hw : e.Well) :
    onTarget (j.outcome fp ds e).fp = j.puts (onTarget fp) (j.records (ds.map Prod.fst)) := by
  have hd := j.drive_puts ds j.fresh fp hfp
  cases hdr : j.framer.drive j.sink j.fresh fp ds with
  | error x =>
    rw [hdr] at hd
    unfold outcome
    rw [hdr]
    exact (hd _).symm
  | ok p =>
    obtain ⟨h, fp₁⟩ := p
    rw [hdr] at hd
    obtain ⟨hst, hfp₁, hrun⟩ := hd
    obtain ⟨herr, hok⟩ := j.outcome_fp (e := e) hdr
    obtain ⟨rest, unread, hend⟩ := j.ended_well hw h fp₁
    rw [records, Framer.records, hrun, ← hst]
    rcases j.conclude_puts hfp₁ h rest with ⟨fp₂, hc, hfp₂, hputs⟩ | ⟨x, hc, hputs⟩
    · obtain ⟨u, hu⟩ := j.openWriteTarget_canOpen hfp₂ unread
      rw [hok fp₂ unread (by rw [hend, hc]; rfl), hu, hputs]
      rfl
    · rw [herr x (by rw [hend, hc]; rfl), hputs]

/-- Without an output open there is nothing on the target. -/
theorem outcome_unopened (ho : j.am.opens = false) (ds : List (UInt8 × List UInt8)) (e : Ending) :
    (j.outcome none ds e).fp = none := by
  have hput : ∀ message unread record,
      j.putRecord message none unread record = .error (message, none) := by
    intro message unread record
    simp only [putRecord, writeRecordOpen, openWriteTarget, ho]
    rfl
  have hdrive : ∀ (ds : List (UInt8 × List UInt8)) (h : Held),
      leaves (j.framer.drive j.sink h none ds) = none := by
    intro ds
    induction ds with
    | nil => exact fun _ => rfl
    | cons p ds ih =>
      intro h
      simp only [Framer.drive]
      split
      · exact ih _
      · next r _ =>
        rw [show j.sink none p.2 r = _ from hput _ _ _]
        rfl
  have hl := hdrive ds j.fresh
  cases hdr : j.framer.drive j.sink j.fresh none ds with
  | error x =>
    rw [hdr] at hl
    unfold outcome
    rw [hdr]
    exact hl
  | ok p =>
    obtain ⟨h, fp₁⟩ := p
    rw [hdr] at hl
    obtain rfl : fp₁ = none := hl
    obtain ⟨herr, hok⟩ := j.outcome_fp (e := e) hdr
    have hconc : ∀ rest, j.conclude h none rest = .ok none ∨
        ∃ m, j.conclude h none rest = .error (m, none) := by
      intro rest
      unfold conclude
      split
      · exact .inl rfl
      · exact .inr ⟨_, hput _ _ _⟩
    cases hend : j.ended h none e with
    | error x =>
      rw [herr x hend]
      rcases j.ended_error hend with ⟨-, hx⟩ | ⟨rest, -, ⟨m, hx⟩ | hx⟩
      · exact hx
      · rcases hconc rest with hc | ⟨m', hc⟩ <;> rw [hc] at hx
        · cases hx
        · exact (Prod.mk.inj (Except.error.inj hx)).2.symm
      · rcases hconc rest with hc | ⟨m', hc⟩ <;> rw [hc] at hx
        · exact (Except.ok.inj hx).symm
        · cases hx
    | ok q =>
      obtain ⟨-, rest, -, -, hc⟩ := j.ended_ok hend
      rw [hok q.1 q.2 hend]
      rcases hconc rest with hc' | ⟨m', hc'⟩ <;> rw [hc'] at hc
      · rw [← Except.ok.inj hc, openWriteTarget, if_neg (by simp [ho])]
      · cases hc

end PutJob

/-! ## A request and its body -/

/-- The request brings exactly the body `b`: with its length, or in chunks and the CRLF behind the
last of them. -/
def PutRequest.Brings (req : PutRequest) (c : Conn) (b : List UInt8) : Prop :=
  ∃ rest, req.WellFormed c.unread b rest ∧
    (isChunked req.transferEncoding → rest.take 2 = [Chunked.CR, Chunked.LF])

/-- A body of at most nine bytes behind its length. -/
theorem brings_digit (dataType : Option (List Char)) {d : Char} {b : List UInt8}
    (hd : CLib.isDigit 10 d = true) (hn : CLib.numeral 10 [d] = b.length) (h9 : b.length ≤ 9) :
    PutRequest.Brings ⟨dataType, none, some [d]⟩ ⟨b, []⟩ b := by
  refine ⟨[], ⟨(List.append_nil b).symm, [d], rfl, ⟨[], [d], [], rfl, nofun, nofun, nofun, ?_, hn⟩,
    Nat.le_trans h9 (by decide)⟩, nofun⟩
  intro c hc
  rwa [List.mem_singleton.mp hc]

namespace PutJob

variable (j : PutJob)

/-- What a request leaves on the target: the records of its body, as far as they are taken. -/
theorem putBody_records (hp : 0 < j.dcb.piece) {req : PutRequest} {c : Conn} {b : List UInt8}
    (hb : req.Brings c b) (fp : Option Target)
    (hfp : fp = none ∨ j.am.opens = true ∧ onTarget fp = []) :
    onTarget (j.putBody (isChunked req.transferEncoding) req.length fp c).fp =
      j.writes (j.records b) := by
  obtain ⟨rest, hwf, hcrlf⟩ := hb
  obtain ⟨ds, e, hg, heq⟩ := j.putBody_eq hp (isChunked req.transferEncoding) req.length fp c
  obtain ⟨ds', e', hg', hds, he⟩ := j.gets_wellFormed hwf
  obtain ⟨rfl, rfl⟩ := Gets.unique hg hg'
  have hw : e.Well := by
    rcases he with rfl | rfl
    · refine hcrlf ?_
      by_contra hno
      unfold Received at hg
      rw [if_neg hno] at hg
      obtain ⟨-, hx⟩ := hg
      split at hx <;> cases hx
    · trivial
  rw [heq]
  unfold writes
  by_cases ho : j.am.opens = true
  · have h0 : onTarget fp = [] := hfp.elim (fun h => by rw [h]; rfl) And.right
    rw [if_pos ho, j.outcome_puts (.inr ho) ds hw, hds, h0]
  · obtain rfl := hfp.resolve_right fun h => ho h.1
    rw [if_neg ho, j.outcome_unopened (Bool.eq_false_iff.mpr ho)]
    rfl

/-! ## The blocks of a binary body -/

/-- A binary body is cut at the piece length; the text framer beside it is not touched. -/
theorem binary_run (hb : j.dataType = .binary) (body : List UInt8) : ∀ h : Held,
    j.framer.run h body = ((h.1, ((Framer.blocks j.dcb.piece).run h.2 body).1),
      ((Framer.blocks j.dcb.piece).run h.2 body).2) := by
  induction body with
  | nil => exact fun _ => rfl
  | cons b body ih =>
    rintro ⟨rl, record⟩
    have hput : j.framer.put (rl, record) b =
        if (record ++ [b]).length ≥ j.dcb.piece then ((rl, []), some (record ++ [b]))
        else ((rl, record ++ [b]), none) := by
      simp only [framer, hb]
    simp only [Framer.run, hput, Framer.blocks_put]
    split
    · rw [ih (rl, [])]
    · rw [ih (rl, record ++ [b])]

/-- What is left over of a binary body. -/
def leftOver (body : List UInt8) : List UInt8 := (j.framer.run j.fresh body).1.2

theorem leftOver_eq (hb : j.dataType = .binary) (body : List UInt8) :
    j.leftOver body = ((Framer.blocks j.dcb.piece).run [] body).1 := by
  rw [leftOver, j.binary_run hb]
  rfl

theorem given_eq (hb : j.dataType = .binary) (body : List UInt8) :
    j.given body = ((Framer.blocks j.dcb.piece).run [] body).2 := by
  rw [given, j.binary_run hb]
  rfl

theorem binary_given (hb : j.dataType = .binary) (hp : 0 < j.dcb.piece) (body : List UInt8) :
    (j.given body).flatten ++ j.leftOver body = body ∧
      (∀ r ∈ j.given body, r.length = j.dcb.piece) ∧ (j.leftOver body).length < j.dcb.piece := by
  rw [j.given_eq hb, j.leftOver_eq hb]
  exact ⟨Framer.cutter_run_flatten _ body [], Framer.blocks_run_length hp body [] hp⟩

theorem binary_records (hb : j.dataType = .binary) (body : List UInt8) :
    j.records body = j.given body ++
      (if j.leftOver body = [] then none else some (j.padded (j.leftOver body))).toList := by
  have hflush : ∀ h : Held, j.framer.flush h =
      if h.2 = [] then none else some (j.padded h.2) := by
    rintro ⟨rl, record⟩
    simp only [framer, hb]
  rw [records, Framer.records, hflush]
  rfl

theorem leftOver_length (hb : j.dataType = .binary) (hp : 0 < j.dcb.piece) (body : List UInt8) :
    (j.leftOver body).length = body.length % j.dcb.piece := by
  rw [j.leftOver_eq hb, Framer.blocks_held_length hp]

theorem leftOver_eq_nil (hb : j.dataType = .binary) (hp : 0 < j.dcb.piece) (body : List UInt8) :
    j.leftOver body = [] ↔ j.dcb.piece ∣ body.length := by
  rw [← List.length_eq_zero_iff, j.leftOver_length hb hp, Nat.dvd_iff_mod_eq_zero]

theorem padded_full (h : j.dcb.isUndefined = true → j.padsUndefined = true)
    (record : List UInt8) :
    j.padded record = record ++ List.replicate (j.dcb.piece - record.length) 0 :=
  if_neg fun hx => Bool.false_ne_true (hx.2.symm.trans (h hx.1))

theorem padded_length (h : j.dcb.isUndefined = true → j.padsUndefined = true)
    {record : List UInt8} (hr : record.length ≤ j.dcb.piece) :
    (j.padded record).length = j.dcb.piece := by
  rw [j.padded_full h, List.length_append, List.length_replicate]
  omega

theorem padded_undefined (hu : j.dcb.isUndefined = true) (h : j.padsUndefined = false)
    (record : List UInt8) : j.padded record = record := if_pos ⟨hu, h⟩

/-- A binary record as it is handed over. -/
def binaryOut (record : List UInt8) : List UInt8 :=
  if isVariable j.dcb.recfm then rdw record.length ++ record else record

theorem binaryOut_length (record : List UInt8) : (j.binaryOut record).length =
    (if isVariable j.dcb.recfm then 4 else 0) + record.length := by
  unfold binaryOut
  split
  · rw [List.length_append]
    rfl
  · exact (Nat.zero_add _).symm

theorem out_binary (hb : j.dataType = .binary) (record : List UInt8) :
    j.out record = some (j.binaryOut record) := by
  unfold out binaryOut
  rw [hb]
  rfl

theorem stored_binary (hb : j.dataType = .binary) {rs : List (List UInt8)}
    (h : ∀ r ∈ rs, r ≠ []) : j.stored rs = rs.map j.binaryOut := by
  induction rs with
  | nil => rfl
  | cons r rs ih =>
    have hr : j.binaryOut r ≠ [] := by
      have := List.length_pos_of_ne_nil (h r List.mem_cons_self)
      exact List.ne_nil_of_length_pos (by rw [binaryOut_length]; omega)
    rw [← List.singleton_append, stored_append, j.stored_single (j.out_binary hb r) hr,
      ih fun r hr => h r (List.mem_cons_of_mem _ hr)]
    rfl

theorem binary_records_ne_nil (hb : j.dataType = .binary) (hp : 0 < j.dcb.piece)
    (body : List UInt8) : ∀ r ∈ j.records body, r ≠ [] := by
  intro r hr
  rw [j.binary_records hb] at hr
  rcases List.mem_append.mp hr with hr | hr
  · exact List.ne_nil_of_length_pos (by rw [(j.binary_given hb hp body).2.1 r hr]; exact hp)
  · split at hr
    · cases hr
    · next h0 =>
      obtain rfl := Option.some.inj (Option.mem_toList.mp hr)
      unfold padded
      split
      · exact h0
      · exact List.append_ne_nil_of_left_ne_nil h0 _

/-- On an access method that takes everything, the records of a body without a record it refuses
are what is stored. -/
theorem puts_sound (hs : j.am = .sound) (rs : List (List UInt8)) : ∀ old : List (List UInt8),
    (∀ r ∈ rs, j.out r ≠ none) → j.puts old rs = old ++ j.stored rs := by
  induction rs with
  | nil => exact fun old _ => (List.append_nil old).symm
  | cons r rs ih =>
    intro old hout
    have hok : j.writeRecord ⟨[], old⟩ r = (⟨[], old ++ j.stored [r]⟩, 0) := by
      unfold writeRecord
      have hr := hout r List.mem_cons_self
      cases ho : j.out r with
      | none => exact absurd ho hr
      | some o =>
        cases o with
        | nil =>
          rw [j.stored_empty ho, List.append_nil]
        | cons b o =>
          rw [j.stored_single ho nofun, hs]
          rfl
    rw [puts, hok]
    simp only [Int.lt_irrefl, if_false]
    rw [ih _ (fun r hr => hout r (List.mem_cons_of_mem _ hr)), List.append_assoc,
      ← j.stored_append]
    rfl

theorem writes_sound (hs : j.am = .sound) {rs : List (List UInt8)}
    (hout : ∀ r ∈ rs, j.out r ≠ none) : j.writes rs = j.stored rs := by
  rw [writes, if_pos (by rw [hs]; rfl), j.puts_sound hs rs [] hout, List.nil_append]

theorem writes_sound_binary (hs : j.am = .sound) (hb : j.dataType = .binary)
    (hp : 0 < j.dcb.piece) (body : List UInt8) :
    j.writes (j.records body) = (j.records body).map j.binaryOut := by
  rw [j.writes_sound hs, j.stored_binary hb (j.binary_records_ne_nil hb hp body)]
  intro r _
  rw [j.out_binary hb]
  exact nofun

end PutJob

/-! ## The two handlers -/

/-- The records of a PUT to an existing sequential data set that passes the checks. -/
def datasetRecords (x : Httpx) (am : AccessMethod) (dcb : Dcb) (req : PutRequest) (c : Conn) :
    List (List UInt8) :=
  onTarget (datasetPutHandler ⟨x, none, some dcb, none, true, am⟩ req c).fp

/-- The records of a PUT to a member, existing or new, that passes the checks. -/
def memberRecords (x : Httpx) (am : AccessMethod) (dcb : Dcb) (isNew later : Bool)
    (req : PutRequest) (c : Conn) : List (List UInt8) :=
  onTarget (memberPutHandler
    ⟨x, none, true, none, if isNew then none else some dcb, dcb, true, later, am⟩ req c).fp

/-- The sequential handler's job for such a PUT. -/
def datasetJob (x : Httpx) (am : AccessMethod) (dcb : Dcb) (dataType : DataType)
    (enc : FileEnc) : PutJob :=
  datasetPutJob ⟨x, none, some dcb, none, true, am⟩ dataType enc dcb

def memberJob (x : Httpx) (am : AccessMethod) (dcb : Dcb) (later : Bool) (dataType : DataType)
    (enc : FileEnc) : PutJob :=
  memberPutJob ⟨x, none, true, none, some dcb, dcb, true, later, am⟩ dataType enc dcb

/-- Whatever the request and the target, the two handlers write the same records of a body, and
each of them the same ones however the body is brought. -/
structure PutsAgree (x : Httpx) (dcb : Dcb) (dataType : Option (List Char)) (b : List UInt8) :
    Prop where
  handlers : ∀ am isNew later req c req' c', req.dataType = dataType → req'.dataType = dataType →
    req.Brings c b → req'.Brings c' b →
    datasetRecords x am dcb req c = memberRecords x am dcb isNew later req' c'
  dataset : ∀ am req c req' c', req.dataType = dataType → req'.dataType = dataType →
    req.Brings c b → req'.Brings c' b →
    datasetRecords x am dcb req c = datasetRecords x am dcb req' c'
  member : ∀ am isNew later req c req' c', req.dataType = dataType → req'.dataType = dataType →
    req.Brings c b → req'.Brings c' b →
    memberRecords x am dcb isNew later req c = memberRecords x am dcb isNew later req' c'

theorem PutRequest.Brings.framed {req : PutRequest} {c : Conn} {b : List UInt8}
    (h : req.Brings c b) : req.unframed = false := by
  obtain ⟨rest, hwf, -⟩ := h
  unfold PutRequest.WellFormed at hwf
  unfold PutRequest.unframed
  split at hwf
  · next hc => simp [hc]
  · obtain ⟨-, cl, hcl, -⟩ := hwf
    simp [hcl]

section Handlers

variable {x : Httpx} {am : AccessMethod} {dcb : Dcb} {req : PutRequest} {c : Conn}
  {b : List UInt8} {dataType : DataType} {enc : FileEnc} {isNew later : Bool}

theorem datasetRecords_eq (hd : parseDataType req.dataType = some (dataType, enc))
    (hb : req.Brings c b) : datasetRecords x am dcb req c =
      if dcb.piece = 0 ∨ dcb.contentMax = 0 then []
      else (datasetJob x am dcb dataType enc).writes
        ((datasetJob x am dcb dataType enc).records b) := by
  unfold datasetRecords datasetPutHandler
  simp only [hd, hb.framed, Bool.false_eq_true, if_false]
  by_cases hz : dcb.piece = 0 ∨ dcb.contentMax = 0
  · simp only [if_pos hz]
    rfl
  · simp only [if_neg hz]
    rw [not_or] at hz
    exact (datasetJob x am dcb dataType enc).putBody_records (Nat.pos_of_ne_zero hz.1) hb none
      (.inl rfl)

theorem memberRecords_eq (hd : parseDataType req.dataType = some (dataType, enc))
    (hb : req.Brings c b) : memberRecords x am dcb isNew later req c =
      if dcb.piece = 0 ∨ dcb.contentMax = 0 then []
      else (memberJob x am dcb later dataType enc).writes
        ((memberJob x am dcb later dataType enc).records b) := by
  have hbody : ∀ fp, ¬ (dcb.piece = 0 ∨ dcb.contentMax = 0) →
      (fp = none ∨ am.opens = true ∧ onTarget fp = []) →
      onTarget ((memberJob x am dcb later dataType enc).putBody
        (isChunked req.transferEncoding) req.length fp c).fp =
      (memberJob x am dcb later dataType enc).writes
        ((memberJob x am dcb later dataType enc).records b) := by
    intro fp hz hfp
    rw [not_or] at hz
    exact (memberJob x am dcb later dataType enc).putBody_records (Nat.pos_of_ne_zero hz.1) hb fp
      hfp
  unfold memberRecords memberPutHandler
  simp only [hd, hb.framed, Bool.false_eq_true, if_false, Bool.true_eq_false]
  cases isNew with
  | false =>
    simp only [Bool.false_eq_true, if_false, Option.isSome_some, if_true, Option.isNone_some,
      false_and, Option.getD_some]
    by_cases hz : dcb.piece = 0 ∨ dcb.contentMax = 0
    · simp only [if_pos hz]
      rfl
    · simp only [if_neg hz]
      exact hbody none hz (.inl rfl)
  | true =>
    simp only [if_true, Option.isSome_none, Bool.false_eq_true, if_false, Option.isNone_none,
      true_and, Option.getD_none, openWriteTarget]
    by_cases ho : am.opens = true
    · simp only [if_pos ho, Option.isNone_some, Bool.false_eq_true, if_false]
      by_cases hz : dcb.piece = 0 ∨ dcb.contentMax = 0
      · simp only [if_pos hz]
        rfl
      · simp only [if_neg hz]
        exact hbody _ hz (.inr ⟨ho, rfl⟩)
    · simp only [if_neg ho, Option.isNone_none, if_true]
      rw [show (memberJob x am dcb later dataType enc).writes _ = [] from if_neg ho, ite_self]
      rfl

theorem PutJob.puts_congr {j j' : PutJob} (h : j.writeRecord = j'.writeRecord)
    (rs : List (List UInt8)) : ∀ old, j.puts old rs = j'.puts old rs := by
  induction rs with
  | nil => exact fun _ => rfl
  | cons r rs ih =>
    intro old
    simp only [PutJob.puts, h, ih]

/-- The two jobs write a list of records alike. -/
theorem memberJob_writes (rs : List (List UInt8)) :
    (memberJob x am dcb later dataType enc).writes rs =
      (datasetJob x am dcb dataType enc).writes rs := by
  unfold PutJob.writes
  rw [PutJob.puts_congr (show (memberJob x am dcb later dataType enc).writeRecord =
    (datasetJob x am dcb dataType enc).writeRecord from rfl)]
  rfl

theorem memberJob_run (b : List UInt8) :
    (memberJob x am dcb later dataType enc).framer.run
        (memberJob x am dcb later dataType enc).fresh b =
      (datasetJob x am dcb dataType enc).framer.run (datasetJob x am dcb dataType enc).fresh b :=
  Framer.run_congr (show (memberJob x am dcb later dataType enc).framer.put =
    (datasetJob x am dcb dataType enc).framer.put from rfl) b _

theorem memberJob_given (b : List UInt8) : (memberJob x am dcb later dataType enc).given b =
    (datasetJob x am dcb dataType enc).given b :=
  congrArg Prod.snd (memberJob_run b)

theorem memberJob_leftOver (b : List UInt8) :
    (memberJob x am dcb later dataType enc).leftOver b =
      (datasetJob x am dcb dataType enc).leftOver b :=
  congrArg (fun p => p.1.2) (memberJob_run b)

theorem memberJob_padded (hu : dcb.isUndefined = false) (r : List UInt8) :
    (memberJob x am dcb later dataType enc).padded r =
      (datasetJob x am dcb dataType enc).padded r := by
  unfold PutJob.padded
  rw [if_neg (fun h => nomatch h.2),
    if_neg (fun h => Bool.false_ne_true (hu.symm.trans h.1))]
  rfl

/-- The last short record of a binary body is the one thing the two may cut differently. -/
theorem memberJob_records (h : dataType = .binary → dcb.isUndefined = true →
      (datasetJob x am dcb dataType enc).leftOver b = []) :
    (memberJob x am dcb later dataType enc).records b =
      (datasetJob x am dcb dataType enc).records b := by
  by_cases hb : dataType = .binary
  · rw [PutJob.binary_records _ hb, PutJob.binary_records _ hb, memberJob_given,
      memberJob_leftOver]
    by_cases hu : dcb.isUndefined = true
    · rw [h hb hu, if_pos rfl, if_pos rfl]
    · rw [memberJob_padded (Bool.eq_false_iff.mpr hu)]
  · have hflush : (memberJob x am dcb later dataType enc).framer.flush =
        (datasetJob x am dcb dataType enc).framer.flush := by
      funext s
      cases dataType with
      | binary => exact absurd rfl hb
      | text => rfl
      | record => rfl
    unfold PutJob.records Framer.records
    rw [memberJob_run, hflush]

/-- The last short record differs where the member handler fills it up. -/
theorem memberJob_writes_ne (hb : dataType = .binary) (hu : dcb.isUndefined = true)
    (hp : 0 < dcb.piece) (h0 : (datasetJob x .sound dcb dataType enc).leftOver b ≠ []) :
    (memberJob x .sound dcb later dataType enc).writes
        ((memberJob x .sound dcb later dataType enc).records b) ≠
      (datasetJob x .sound dcb dataType enc).writes
        ((datasetJob x .sound dcb dataType enc).records b) := by
  intro h
  rw [PutJob.writes_sound_binary _ rfl hb hp, PutJob.writes_sound_binary _ rfl hb hp,
    PutJob.binary_records _ hb, PutJob.binary_records _ hb, memberJob_given, memberJob_leftOver, if_neg h0, if_neg h0,
    List.map_append, List.map_append] at h
  have hlast := congrArg (fun l => (l.map List.length)) (List.append_cancel_left h)
  simp only [Option.toList_some, List.map_cons, List.map_nil, PutJob.binaryOut_length] at hlast
  have hlen : ((datasetJob x .sound dcb dataType enc).leftOver b).length < dcb.piece :=
    (PutJob.binary_given (datasetJob x .sound dcb dataType enc) hb hp b).2.2
  have hpad : ((memberJob x .sound dcb later dataType enc).padded
      ((datasetJob x .sound dcb dataType enc).leftOver b)).length = dcb.piece :=
    PutJob.padded_length _ (fun _ => rfl) (Nat.le_of_lt hlen)
  rw [PutJob.padded_undefined (datasetJob x .sound dcb dataType enc) hu rfl, hpad] at hlast
  have := (List.cons.inj hlast).1
  change (if isVariable dcb.recfm then 4 else 0) + dcb.piece =
    (if isVariable dcb.recfm then 4 else 0) + _ at this
  omega

end Handlers

theorem Dcb.piece_undefined {dcb : Dcb} (hu : dcb.isUndefined = true) :
    dcb.piece = dcb.blksize := by
  unfold Dcb.piece reclimBinaryPiece Dcb.effLrecl
  rw [if_neg (fun h => Bool.false_ne_true (h.1.symm.trans hu)), if_pos hu]

theorem Dcb.contentMax_undefined {dcb : Dcb} (hu : dcb.isUndefined = true) :
    dcb.contentMax = dcb.blksize := by
  unfold Dcb.contentMax reclimContentMax Dcb.effLrecl
  rw [if_pos hu, if_pos hu]

/-- The handlers agree on all bodies but the binary ones that leave a short block behind on a
target of RECFM=U. -/
theorem puts_agree_iff (x : Httpx) (dcb : Dcb) (dataType : Option (List Char)) (b : List UInt8) :
    PutsAgree x dcb dataType b ↔
      ∀ enc, parseDataType dataType = some (.binary, enc) → dcb.isUndefined = true →
        dcb.blksize = 0 ∨ dcb.blksize ∣ b.length := by
  constructor
  · rintro ⟨h, -, -⟩ enc hd hu
    by_contra hno
    rw [not_or, ← Dcb.piece_undefined hu] at hno
    have hp : 0 < dcb.piece := Nat.pos_of_ne_zero hno.1
    have hz : ¬ (dcb.piece = 0 ∨ dcb.contentMax = 0) := by
      rw [Dcb.contentMax_undefined hu, ← Dcb.piece_undefined hu, or_self]
      exact hno.1
    obtain ⟨s, hs⟩ := Chunked.Coded.ofBody (P := Fits) (show 1 ≤ 8 by decide) (show 1 ≤ 8 by decide) b
      [Chunked.CR, Chunked.LF]
    have hb : PutRequest.Brings ⟨dataType, some "chunked".toList, none⟩ ⟨s, []⟩ b :=
      ⟨_, hs, fun _ => rfl⟩
    have heq := h .sound false false _ ⟨s, []⟩ _ ⟨s, []⟩ rfl rfl hb hb
    rw [datasetRecords_eq hd hb, memberRecords_eq hd hb, if_neg hz, if_neg hz] at heq
    refine memberJob_writes_ne rfl hu hp ?_ heq.symm
    rw [ne_eq, PutJob.leftOver_eq_nil _ rfl hp]
    exact hno.2
  · intro h
    cases hd : parseDataType dataType with
    | none =>
      have hset : ∀ am req c, req.dataType = dataType → datasetRecords x am dcb req c = [] := by
        rintro am req c rfl
        rw [datasetRecords, (datasetPutHandler_badType _ req c hd).1]
        rfl
      have hmem : ∀ am isNew later req c, req.dataType = dataType →
          memberRecords x am dcb isNew later req c = [] := by
        rintro am isNew later req c rfl
        rw [memberRecords, (memberPutHandler_badType _ req c hd).1]
        rfl
      exact ⟨fun am isNew later req c req' c' ht ht' _ _ => by
          rw [hset am req c ht, hmem am isNew later req' c' ht'],
        fun am req c req' c' ht ht' _ _ => by rw [hset am req c ht, hset am req' c' ht'],
        fun am isNew later req c req' c' ht ht' _ _ => by
          rw [hmem am isNew later req c ht, hmem am isNew later req' c' ht']⟩
    | some p =>
      obtain ⟨dt, enc⟩ := p
      refine ⟨?_, ?_, ?_⟩
      · rintro am isNew later req c req' c' rfl ht hb hb'
        rw [datasetRecords_eq hd hb, memberRecords_eq (by rw [ht]; exact hd) hb']
        split
        · rfl
        · next hz =>
          rw [not_or] at hz
          rw [memberJob_writes, memberJob_records]
          rintro rfl hu
          rw [PutJob.leftOver_eq_nil _ rfl (Nat.pos_of_ne_zero hz.1)]
          have hdvd := (h enc hd hu).resolve_left (by rw [← Dcb.piece_undefined hu]; exact hz.1)
          rw [← Dcb.piece_undefined hu] at hdvd
          exact hdvd
      · rintro am req c req' c' rfl ht hb hb'
        rw [datasetRecords_eq hd hb, datasetRecords_eq (by rw [ht]; exact hd) hb']
      · rintro am isNew later req c req' c' rfl ht hb hb'
        rw [memberRecords_eq hd hb, memberRecords_eq (by rw [ht]; exact hd) hb']

/-- One byte to a target of undefined-length records of up to four. -/
theorem puts_disagree : ¬ PutsAgree ⟨.cp037, .cp037⟩ ⟨0xC0, 0, 4⟩ (some "binary".toList) [0x41] := by
  intro h
  have hb : PutRequest.Brings ⟨some "binary".toList, none, some ['1']⟩ ⟨[0x41], []⟩ [0x41] :=
    brings_digit _ rfl rfl (by decide)
  exact absurd (h.handlers .sound false false _ _ _ _ rfl rfl hb hb) (by decide +kernel)

end Mvsmf
