import Mvsmf.Common.BodyRun
import Mvsmf.Dsapi.PutRun

/-!
# The four readers of a chunked body

`read_chunked`, the loops of the two PUT handlers and the loop of `datasetCreateHandler` as functions
from the stream to a body or a rejection. They decide for themselves what a size line is, what may
stand behind a chunk and what ends a body. `readers_agree_iff` says on which streams they come to
one answer.
-/

namespace Mvsmf

/-! ## `read_chunked` -/

/-- `read_body` for a chunked body when there is storage. -/
def bodyOps (cp : HttpCp) : BodyOps := ⟨cp, fun _ => true⟩

def bodyRead (cp : HttpCp) (c : Conn) : Option (List UInt8) :=
  let out := readBody (bodyOps cp) none true c
  if out.rc = .ok then out.content else none

/-- On a well-formed stream `read_chunked` accepts when every size line fits and the body is
smaller than the limit, and then with the stream's body. -/
theorem readChunked_strict {ops : BodyOps} (hg : ∀ n, ops.grant n = true) {s b rest : List UInt8}
    (h : Chunked.Strict s b rest) : ∀ st : BodyState, st.Sound → st.conn.unread = s →
    (((readChunkedLoop ops).exec st).rc = .ok → Chunked.Coded Fits s b rest ∧
        st.size + b.length < REQBODY_MAX ∧
        ((readChunkedLoop ops).exec st).content = some (st.buf.getD [] ++ b)) ∧
    (Chunked.Coded Fits s b rest → st.size + b.length < REQBODY_MAX →
      ((readChunkedLoop ops).exec st).rc = .ok) := by
  induction h with
  | @last line rest hp hl =>
    intro st hst hu
    by_cases hf : Fits line
    · obtain ⟨d, hline, -⟩ := sizeLine_fits hf hl.noCR hu
      have hv := sizeValue_short ops.cp hl hf
      rcases chunkStep_sound hg hst hline with
        ⟨s', -, -, -, -, h0, -⟩ | ⟨r, hr, hok, hcon, -, -, -, hsz, -⟩ | ⟨r, hr, hbad, hwhy, -⟩
      · exact absurd hv h0
      · rw [(readChunkedLoop ops).exec_done hr]
        refine ⟨fun _ => ⟨.last hf hl, by simpa using hsz, by rw [hcon, List.append_nil]⟩,
          fun _ _ => hok⟩
      · rw [(readChunkedLoop ops).exec_done hr]
        refine ⟨fun h => absurd h hbad, fun _ hsz => ?_⟩
        rcases hwhy with h | h | h | h
        · exact absurd rfl h
        · rw [(strtoul_sizeText ops.cp hl).2] at h
          cases h
        · rw [List.length_nil] at hsz
          omega
        · exact absurd hv h.1
    · obtain ⟨l, d, hline⟩ := sizeLine_long hf hl.noCR hu
      rcases chunkStep_sound hg hst hline with
        ⟨s', -, -, he, -⟩ | ⟨r, -, -, -, he, -⟩ | ⟨r, hr, hbad, -⟩
      · cases he
      · cases he
      · rw [(readChunkedLoop ops).exec_done hr]
        exact ⟨fun h => absurd h hbad, fun hc _ => absurd (hc.first_line hl.noCR rfl) hf⟩
  | @chunk line data s b rest hp hl hd htail ih =>
    intro st hst hu
    have hcoded : Chunked.Coded Fits (line ++ Chunked.CR :: Chunked.LF :: (data ++
        Chunked.CR :: Chunked.LF :: s)) (data ++ b) rest → Chunked.Coded Fits s b rest := by
      intro hc
      obtain ⟨b', hb', hc'⟩ := hc.behind_chunk hl hd rfl
      rwa [List.append_cancel_left hb']
    by_cases hf : Fits line
    · obtain ⟨d, hline, hd'⟩ := sizeLine_fits hf hl.noCR hu
      have hv := sizeValue_short ops.cp hl hf
      have hpos := List.length_pos_of_ne_nil hd
      rcases chunkStep_sound hg hst hline with
        ⟨s', hs', hst', -, hlt, -, -, hu', hbuf, -⟩ | ⟨r, -, -, -, -, -, h0, -⟩ |
        ⟨r, hr, hbad, hwhy, -⟩
      · rw [(readChunkedLoop ops).exec_next hs']
        rw [hv, hd'] at hu' hbuf
        rw [← List.drop_drop, List.drop_left] at hu'
        rw [List.take_left] at hbuf
        obtain ⟨i1, i2⟩ := ih s' hst' hu'
        have hsz : s'.size = st.size + data.length := by
          rw [hst'.size, hbuf, List.length_append, hst.size]
        rw [hsz] at i1 i2
        rw [List.length_append, ← Nat.add_assoc]
        constructor
        · intro hok
          obtain ⟨c1, c2, c3⟩ := i1 hok
          exact ⟨.chunk hf hl hd c1, c2, by rw [c3, hbuf, List.append_assoc]⟩
        · intro hc hlt'
          exact i2 (hcoded hc) hlt'
      · exact absurd h0 (by omega)
      · rw [(readChunkedLoop ops).exec_done hr]
        refine ⟨fun h => absurd h hbad, fun _ hsz => ?_⟩
        rw [List.length_append] at hsz
        rcases hwhy with h | h | h | ⟨-, h⟩
        · exact absurd rfl h
        · rw [(strtoul_sizeText ops.cp hl).2] at h
          cases h
        · omega
        · rw [hv, hd', List.length_append, List.length_cons, List.length_cons] at h
          omega
    · obtain ⟨l, d, hline⟩ := sizeLine_long hf hl.noCR hu
      rcases chunkStep_sound hg hst hline with
        ⟨s', -, -, he, -⟩ | ⟨r, -, -, -, he, -⟩ | ⟨r, hr, hbad, -⟩
      · cases he
      · cases he
      · rw [(readChunkedLoop ops).exec_done hr]
        exact ⟨fun h => absurd h hbad, fun hc _ => absurd (hc.first_line hl.noCR rfl) hf⟩

theorem bodyRead_eq (cp : HttpCp) (c : Conn) : bodyRead cp c =
    if ((readChunkedLoop (bodyOps cp)).exec (.start c)).rc = .ok then
      ((readChunkedLoop (bodyOps cp)).exec (.start c)).content else none := rfl

theorem bodyRead_strict (cp : HttpCp) {c : Conn} {b rest : List UInt8}
    (h : Chunked.Strict c.unread b rest) :
    (∀ b', bodyRead cp c = some b' → Chunked.Coded Fits c.unread b rest ∧
      b.length < REQBODY_MAX ∧ b' = b) ∧
    (Chunked.Coded Fits c.unread b rest → b.length < REQBODY_MAX → bodyRead cp c = some b) := by
  have h0 : (BodyState.start c).size + b.length = b.length := Nat.zero_add _
  obtain ⟨h1, h2⟩ := readChunked_strict
    (show ∀ n, (bodyOps cp).grant n = true from fun _ => rfl) h (.start c)
    (BodyState.start_sound c) rfl
  rw [h0] at h1 h2
  rw [bodyRead_eq]
  constructor
  · intro b' hb'
    split at hb'
    · next hok =>
      obtain ⟨c1, c2, c3⟩ := h1 hok
      rw [c3] at hb'
      exact ⟨c1, c2, (Option.some.inj hb').symm⟩
    · cases hb'
  · intro hc hlt
    have hok := h2 hc hlt
    rw [if_pos hok, (h1 hok).2.2]
    rfl

/-- A stream whose first size line brings no data byte: accepted only for a line that says 0. -/
theorem bodyRead_first (cp : HttpCp) {c d : Conn} {line : List UInt8} {e : LineEnd}
    (hl : sizeLine c = (line, e, d)) (h0 : sizeValue cp line = 0 ∨ d.unread = []) :
    bodyRead cp c = none ↔ ¬ (e = .cr ∧ noDigits cp line = false ∧ sizeValue cp line = 0) := by
  rw [bodyRead_eq]
  rcases chunkStep_sound (show ∀ n, (bodyOps cp).grant n = true from fun _ => rfl)
    (BodyState.start_sound c) hl with
    ⟨s', -, -, -, -, hv, hlen, -⟩ | ⟨r, hr, hok, hcon, he, hd, hv, -⟩ | ⟨r, hr, hbad, hwhy, -⟩
  · refine absurd hlen ?_
    have := h0.resolve_left hv
    rw [this, List.length_nil]
    omega
  · rw [(readChunkedLoop (bodyOps cp)).exec_done hr, if_pos hok, hcon]
    exact iff_of_false nofun (fun h => h ⟨he, hd, hv⟩)
  · rw [(readChunkedLoop (bodyOps cp)).exec_done hr, if_neg hbad]
    refine iff_of_true rfl ?_
    rintro ⟨rfl, hd, hv⟩
    rcases hwhy with h | h | h | h
    · exact h rfl
    · rw [show noDigits cp line = true from h] at hd
      cases hd
    · have h : sizeValue cp line ≥ REQBODY_MAX := h
      rw [hv] at h
      exact absurd h (by decide)
    · exact h.1 hv

/-! ## The loops of the PUT handlers -/

/-- A binary PUT to a target that takes every byte as a record. -/
def byteJob (padsUndefined : Bool) (cp : HttpCp) : PutJob where
  sizeCp := cp
  cp := cp
  dataType := .binary
  dcb := ⟨RECFM_U, 0, 1⟩
  padsUndefined := padsUndefined
  openFailed := datasetNotFound
  am := .sound

/-- The chunk loop of a PUT handler: the bytes it brings onto such a target. -/
def putRead (padsUndefined : Bool) (cp : HttpCp) (c : Conn) : Option (List UInt8) :=
  match (byteJob padsUndefined cp).putChunks.exec ⟨c, none, reclineInit 1, []⟩ with
  | .error _ => none
  | .ok s => some (onTarget s.fp).flatten

def datasetRead : HttpCp → Conn → Option (List UInt8) := putRead false

def memberRead : HttpCp → Conn → Option (List UInt8) := putRead true

theorem byteDcb_piece : Dcb.piece ⟨RECFM_U, 0, 1⟩ = 1 := by decide +kernel

theorem byteDcb_variable : isVariable RECFM_U = false := by decide +kernel

theorem byteJob_run (p : Bool) (cp : HttpCp) (rl : Recline) : ∀ body : List UInt8,
    (byteJob p cp).framer.run (rl, []) body = ((rl, []), body.map fun b => [b])
  | [] => rfl
  | b :: body => by
    have hput : (byteJob p cp).framer.put (rl, []) b = ((rl, []), some [b]) := by
      simp [PutJob.framer, byteJob, byteDcb_piece]
    simp only [Framer.run, hput, byteJob_run p cp rl body]
    rfl

theorem byteJob_out (p : Bool) (cp : HttpCp) (r : List UInt8) : (byteJob p cp).out r = some r := by
  simp [PutJob.out, recordOut, byteJob, byteDcb_variable]

theorem byteJob_stored (p : Bool) (cp : HttpCp) (body : List UInt8) :
    ((byteJob p cp).stored (body.map fun b => [b])).flatten = body := by
  induction body with
  | nil => rfl
  | cons b body ih =>
    rw [List.map_cons, ← List.singleton_append, PutJob.stored_append,
      PutJob.stored_single _ (byteJob_out p cp [b]) (by simp), List.flatten_append, ih]
    rfl

/-- Both loops accept the bytes delivered to a good end. -/
theorem putRead_eq (p : Bool) (cp : HttpCp) {c : Conn} {ds : List (UInt8 × List UInt8)}
    {e : Ending} (h : Delivers cp c.unread ds e) :
    (e.Well → putRead p cp c = some (ds.map Prod.fst)) ∧ (¬ e.Well → putRead p cp c = none) := by
  let j := byteJob p cp
  have hp : 0 < j.dcb.piece := by
    rw [show j.dcb.piece = 1 from byteDcb_piece]
    exact Nat.one_pos
  obtain ⟨ds', e', h', hspec⟩ := j.putChunks_exec hp ⟨c, none, reclineInit 1, []⟩ hp
  obtain ⟨rfl, rfl⟩ := h.unique h'
  have hout : ∀ r, j.out r ≠ none := fun r => by rw [byteJob_out]; exact nofun
  obtain ⟨held, fp, hdr⟩ := j.drive_sound rfl ds (reclineInit 1, []) none fun r _ => hout r
  obtain ⟨hst, htook⟩ := Framer.drive_ok hdr
  rw [byteJob_run] at hst htook
  have hconc : ∀ rest, j.conclude held fp rest = .ok fp := by
    intro rest
    rw [hst]
    rfl
  have hon : (onTarget fp).flatten = ds.map Prod.fst := by
    rw [(j.took_onTarget htook).2]
    exact byteJob_stored p cp _
  unfold PutJob.EndSpec at hspec
  rw [hdr] at hspec
  simp only at hspec
  unfold putRead
  rw [show byteJob p cp = j from rfl]
  constructor
  · intro hw
    have hend : ∃ u, j.ended held fp e = .ok (fp, u) := by
      unfold PutJob.ended
      cases e with
      | cut m => exact hw.elim
      | all rest => simp only [hconc]; exact ⟨_, rfl⟩
      | last rest =>
        have hcrlf : rest.take 2 = [Chunked.CR, Chunked.LF] := hw
        simp only [hconc, hcrlf]
        exact ⟨_, rfl⟩
    obtain ⟨u, hend⟩ := hend
    rw [hend] at hspec
    obtain ⟨s', hx, -, hfp, -⟩ := hspec
    rw [hx]
    simp only [hfp, hon]
  · intro hw
    cases hend : j.ended held fp e with
    | ok q => exact absurd (j.ended_ok hend).1 hw
    | error x =>
      rw [hend] at hspec
      rw [hspec]

/-! ## The loop of `datasetCreateHandler` -/

/-- A chunked create request without a POST_STRING. -/
def createChunked : CreateRequest := ⟨none, some "chunked".toList, none⟩

def createRead (cp : HttpCp) (c : Conn) : Option (List Char) :=
  match (createBody cp createChunked c).body with
  | .ok body => some body
  | .error _ => none

theorem createRead_eq (cp : HttpCp) (c : Conn) :
    createRead cp c = if ((createChunks cp).exec (.start c)).body = [] then none
      else some (((createChunks cp).exec (.start c)).body.map cp.native) := by
  have hrec : createReceive cp createChunked c = (createChunks cp).exec (.start c) := by
    unfold createReceive
    rw [if_pos (by decide)]
  unfold createRead createBody
  rw [if_pos (by decide), hrec]
  by_cases h0 : ((createChunks cp).exec (.start c)).body = []
  · simp only [if_pos h0]
  · simp only [if_neg h0]

theorem createChunks_length (cp : HttpCp) (c : Conn) :
    ((createChunks cp).exec (.start c)).body.length < LOCAL_BODY ↔ ¬ Overruns cp c.unread := by
  rw [← Nat.not_le, createChunks_overrun cp (.start c) (Nat.succ_pos _)]
  rfl

/-- With nothing left to come the loop ends as it is. -/
theorem createChunks_empty (cp : HttpCp) (s : CreateState) (h : s.conn.unread = []) :
    ((createChunks cp).exec s).body = s.body := by
  obtain ⟨⟨u, bulk⟩, body, stores⟩ := s
  cases h
  rw [(createChunks cp).exec_done (r := ⟨⟨[], bulk⟩, body, stores⟩) rfl]

theorem createChunks_zero (cp : HttpCp) {s : CreateState} {line : List UInt8} {e : LineEnd}
    {c : Conn} (hl : sizeLine s.conn = (line, e, c)) (hv : sizeValue cp line = 0) :
    ((createChunks cp).exec s).body = s.body := by
  cases hs : createChunkStep cp s with
  | inl s' =>
    obtain ⟨line', e', c', hl', hv', -⟩ := createChunkStep_inl hs
    rw [hl] at hl'
    cases hl'
    exact absurd hv hv'
  | inr s' => rw [(createChunks cp).exec_done hs, (createChunkStep_inr hs).2.1]

theorem createChunks_next (cp : HttpCp) {s : CreateState} {line : List UInt8} {e : LineEnd}
    {c : Conn} (hl : sizeLine s.conn = (line, e, c)) (hv : sizeValue cp line ≠ 0) :
    ∃ s', (createChunks cp).exec s = (createChunks cp).exec s' ∧
      s'.body = s.body ++ c.unread.take (chunkTake s.body.length (sizeValue cp line)) ∧
      s'.conn.unread = c.unread.drop (chunkTake s.body.length (sizeValue cp line) + 2) := by
  cases hs : createChunkStep cp s with
  | inl s' =>
    obtain ⟨line', e', c', hl', -, hb, hu, -⟩ := createChunkStep_inl hs
    rw [hl] at hl'
    cases hl'
    exact ⟨s', (createChunks cp).exec_next hs, hb, hu⟩
  | inr s' =>
    obtain ⟨⟨line', e', c', hl', hv'⟩, -⟩ := createChunkStep_inr hs
    rw [hl] at hl'
    cases hl'
    exact absurd hv' hv

/-- The handler rejects a body without a byte: the first size line says 0 or nothing follows it. -/
theorem createRead_none (cp : HttpCp) {c d : Conn} {line : List UInt8} {e : LineEnd}
    (hl : sizeLine c = (line, e, d)) :
    createRead cp c = none ↔ sizeValue cp line = 0 ∨ d.unread = [] := by
  rw [createRead_eq]
  by_cases hv : sizeValue cp line = 0
  · rw [createChunks_zero cp (s := .start c) hl hv, if_pos (show (CreateState.start c).body = [] from rfl)]
    exact iff_of_true rfl (.inl hv)
  · obtain ⟨s', hs', hb, hu⟩ := createChunks_next cp (s := .start c) hl hv
    rw [hs']
    by_cases hd : d.unread = []
    · rw [hd, List.take_nil, List.append_nil] at hb
      rw [createChunks_empty cp s' (by rw [hu, hd, List.drop_nil]), hb,
        if_pos (show (CreateState.start c).body = [] from rfl)]
      exact iff_of_true rfl (.inr hd)
    · have hle := createChunks_length_le cp s'
      have hpos := List.length_pos_of_ne_nil hd
      have hlen : 0 < s'.body.length := by
        rw [hb, List.length_append, List.length_take]
        have hk : 0 < chunkTake (CreateState.start c).body.length (sizeValue cp line) := by
          unfold chunkTake
          omega
        omega
      rw [if_neg (List.ne_nil_of_length_pos (by omega))]
      exact iff_of_false nofun (fun h => h.elim hv hd)

/-- On a well-formed stream that does not overrun the array the loop keeps what fits of the body. -/
theorem createChunks_coded (cp : HttpCp) {s b rest : List UInt8}
    (h : Chunked.Coded Fits s b rest) : ∀ st : CreateState, st.conn.unread = s →
    st.body.length < LOCAL_BODY →
    (¬ ∃ r, Fills cp (LOCAL_BODY - 1 - st.body.length) s r ∧ Another cp r) →
    ((createChunks cp).exec st).body = st.body ++ b.take (LOCAL_BODY - 1 - st.body.length) := by
  induction h with
  | @last line rest hp hl =>
    intro st hu hlt hno
    obtain ⟨d, hline, -⟩ := sizeLine_fits hp hl.noCR hu
    rw [createChunks_zero cp hline (sizeValue_short cp hl hp), List.take_nil, List.append_nil]
  | @chunk line data s b rest hp hl hd _ ih =>
    intro st hu hlt hno
    obtain ⟨d, hline, hdu⟩ := sizeLine_fits hp hl.noCR hu
    obtain ⟨d', hline', hdu'⟩ := sizeLine_bulk hline
    rw [hu] at hline'
    rw [hdu] at hdu'
    have hv := sizeValue_short cp hl hp
    have hpos := List.length_pos_of_ne_nil hd
    have hne : sizeValue cp line ≠ 0 := by omega
    obtain ⟨st', hst', hb, hu'⟩ := createChunks_next cp hline hne
    rw [hst']
    rw [hdu, hv] at hb hu'
    by_cases h0 : LOCAL_BODY - 1 - st.body.length = 0
    · -- no room: this chunk would overrun the array
      refine absurd ⟨_, by rw [h0]; exact .full, ?_⟩ hno
      simp only [Another, hline', hdu', hv]
      exact ⟨by omega, by simp [hd]⟩
    · have hfill : ∀ r, Fills cp (LOCAL_BODY - 1 - st.body.length - data.length)
          ((data ++ Chunked.CR :: Chunked.LF :: s).drop
            (min data.length (LOCAL_BODY - 1 - st.body.length) + 2)) r →
          ¬ Another cp r := by
        intro r hf ha
        refine hno ⟨r, (fills_iff h0 hline').mpr ⟨hne, ?_, ?_⟩, ha⟩
        · rw [hv, hdu', List.length_append]
          omega
        · rw [hv, hdu']
          exact hf
      by_cases hroom : data.length ≤ LOCAL_BODY - 1 - st.body.length
      · have hk : chunkTake st.body.length data.length = data.length := by
          unfold chunkTake
          omega
        rw [hk, List.take_left] at hb
        rw [hk, ← List.drop_drop, List.drop_left] at hu'
        rw [Nat.min_eq_left hroom, ← List.drop_drop, List.drop_left] at hfill
        have hlen : st'.body.length = st.body.length + data.length := by
          rw [hb, List.length_append]
        rw [ih st' hu' (by omega) (by
          rw [hlen, ← Nat.sub_sub]
          rintro ⟨r, hf, ha⟩
          exact hfill r hf ha), hlen, hb, List.append_assoc, List.take_append,
          List.take_of_length_le hroom, ← Nat.sub_sub]
      · have hk : chunkTake st.body.length data.length = LOCAL_BODY - 1 - st.body.length := by
          unfold chunkTake
          omega
        rw [hk, List.take_append_of_le_length (by omega)] at hb
        rw [hk] at hu'
        rw [Nat.min_eq_right (by omega), ← hu',
          show LOCAL_BODY - 1 - st.body.length - data.length = 0 by omega] at hfill
        -- the array is full: what is read next must not be a chunk with a byte
        have hfull := hfill _ .full
        have hlen : st'.body.length = LOCAL_BODY - 1 := by
          rw [hb, List.length_append, List.length_take]
          omega
        rw [List.take_append_of_le_length (by omega), ← hb]
        rcases hl₁ : sizeLine st'.conn with ⟨l, e, d₁⟩
        obtain ⟨d₂, hl₂, hd₂⟩ := sizeLine_bulk hl₁
        by_cases hv₁ : sizeValue cp l = 0
        · exact createChunks_zero cp hl₁ hv₁
        · have hd₁ : d₁.unread = [] := by
            by_contra hne₁
            refine hfull ?_
            simp only [Another, hl₂, hd₂]
            exact ⟨hv₁, hne₁⟩
          obtain ⟨st'', hst'', hb'', hu''⟩ := createChunks_next cp hl₁ hv₁
          rw [hst'', createChunks_empty cp st'' (by rw [hu'', hd₁, List.drop_nil]), hb'', hd₁,
            List.take_nil, List.append_nil]

/-! ## The four together -/

/-- All four readers reject the stream, or all four accept it with one body, the create handler as
far as it fits its array; and what any of them accepts is a well-formed chunked body. -/
structure ReadersAgree (cp : HttpCp) (c : Conn) : Prop where
  same : (bodyRead cp c = none ∧ datasetRead cp c = none ∧ memberRead cp c = none ∧
      createRead cp c = none) ∨
    ∃ b, bodyRead cp c = some b ∧ datasetRead cp c = some b ∧ memberRead cp c = some b ∧
      createRead cp c = some ((b.take (LOCAL_BODY - 1)).map cp.native)
  wellFormed : (bodyRead cp c ≠ none ∨ datasetRead cp c ≠ none ∨ memberRead cp c ≠ none ∨
    createRead cp c ≠ none) → ∃ b rest, Chunked.Strict c.unread b rest

/-- The stream is a well-formed body in every reader's terms: its size lines fit, its last CRLF is
there, it has a byte, it is under the limit of `read_chunked`, and behind the byte that fills the
create handler's array the loop there meets no chunk. -/
def PlainBody (cp : HttpCp) (s : List UInt8) : Prop :=
  ∃ b rest, Chunked.Coded Fits s b (Chunked.CR :: Chunked.LF :: rest) ∧ b ≠ [] ∧
    b.length < REQBODY_MAX ∧ ¬ Overruns cp s

/-- The stream breaks off before any data byte in a way none of the readers takes for an empty
body: in the first size line, behind one with a value, or behind one without a readable value and
without the last CRLF. -/
def BrokenHead (cp : HttpCp) (s : List UInt8) : Prop :=
  let (line, e, c) := sizeLine ⟨s, []⟩
  e = .closed ∨ (sizeValue cp line ≠ 0 ∧ c.unread = []) ∨
    (sizeValue cp line = 0 ∧ (e = .full ∨ noDigits cp line = true) ∧
      c.unread.take 2 ≠ [Chunked.CR, Chunked.LF])

/-- The PUT loops and the first size line. -/
theorem putRead_first (p : Bool) (cp : HttpCp) {c d : Conn} {line : List UInt8} {e : LineEnd}
    (hl : sizeLine c = (line, e, d)) (h0 : sizeValue cp line = 0 ∨ d.unread = []) :
    putRead p cp c = none ↔ e = .closed ∨ sizeValue cp line ≠ 0 ∨
      d.unread.take 2 ≠ [Chunked.CR, Chunked.LF] := by
  obtain ⟨d', hd, hdu⟩ := sizeLine_bulk hl
  by_cases he : e = .closed
  · subst he
    exact iff_of_true ((putRead_eq p cp (.noLine hd)).2 id) (.inl rfl)
  by_cases hv : sizeValue cp line = 0
  · obtain ⟨h1, h2⟩ := putRead_eq p cp (.zero hd he hv)
    rw [hdu] at h1 h2
    by_cases hw : d.unread.take 2 = [Chunked.CR, Chunked.LF]
    · rw [h1 hw]
      exact iff_of_false nofun (by simp [he, hv, hw])
    · exact iff_of_true (h2 hw) (.inr (.inr hw))
  · refine iff_of_true ((putRead_eq p cp (.short hd he hv ?_)).2 id) (.inr (.inl hv))
    rw [hdu, h0.resolve_left hv, List.length_nil]
    exact Nat.pos_of_ne_zero hv

/-- All four reject a stream exactly when it has a broken head. -/
theorem readers_reject_iff (cp : HttpCp) (c : Conn) :
    (bodyRead cp c = none ∧ datasetRead cp c = none ∧ memberRead cp c = none ∧
      createRead cp c = none) ↔ BrokenHead cp c.unread := by
  rcases hl : sizeLine c with ⟨line, e, d⟩
  obtain ⟨d', hd, hdu⟩ := sizeLine_bulk hl
  unfold BrokenHead
  rw [hd, createRead_none cp hl]
  simp only [hdu]
  have hclosed : e = .closed → d.unread = [] := by
    rintro rfl
    have := sizeLineIn_spec (CHUNK_LINE_MAX - 1) c
    rw [show sizeLineIn (CHUNK_LINE_MAX - 1) c = _ from hl] at this
    exact this.2.2.2
  constructor
  · rintro ⟨hb, hp, -, h0⟩
    rw [bodyRead_first cp hl h0] at hb
    rw [datasetRead, putRead_first false cp hl h0] at hp
    by_cases hv : sizeValue cp line = 0
    · by_cases he : e = .closed
      · exact .inl he
      · refine .inr (.inr ⟨hv, ?_, ?_⟩)
        · cases e with
          | full => exact .inl rfl
          | closed => exact absurd rfl he
          | cr => exact .inr (by simpa [hv] using hb)
        · exact (hp.resolve_left he).resolve_left (fun h => h hv)
    · exact .inr (.inl ⟨hv, h0.resolve_left hv⟩)
  · intro h
    have h0 : sizeValue cp line = 0 ∨ d.unread = [] := by
      rcases h with h | h | h
      · exact .inr (hclosed h)
      · exact .inr h.2
      · exact .inl h.1
    have hput : e = .closed ∨ sizeValue cp line ≠ 0 ∨
        d.unread.take 2 ≠ [Chunked.CR, Chunked.LF] := by
      rcases h with h | h | h
      · exact .inl h
      · exact .inr (.inl h.1)
      · exact .inr (.inr h.2.2)
    rw [bodyRead_first cp hl h0, datasetRead, memberRead, putRead_first false cp hl h0,
      putRead_first true cp hl h0]
    refine ⟨?_, hput, hput, h0⟩
    rintro ⟨rfl, hd, hv⟩
    rcases h with h | h | ⟨-, h | h, -⟩
    · cases h
    · exact h.1 hv
    · cases h
    · rw [hd] at h
      cases h

theorem take_two_crlf {rest : List UInt8} (h : rest.take 2 = [Chunked.CR, Chunked.LF]) :
    ∃ t, rest = Chunked.CR :: Chunked.LF :: t :=
  ⟨rest.drop 2, by rw [← List.take_append_drop 2 rest, h]; rfl⟩

/-- The readers agree on the plain bodies and on the streams with a broken head, and on nothing
else. -/
theorem readers_agree_iff (cp : HttpCp) (c : Conn) :
    ReadersAgree cp c ↔ PlainBody cp c.unread ∨ BrokenHead cp c.unread := by
  constructor
  · rintro ⟨hrej | ⟨b, hb, hp, -, hc⟩, hwf⟩
    · exact .inr ((readers_reject_iff cp c).mp hrej)
    · left
      obtain ⟨b', rest, hstrict⟩ := hwf (.inl (by rw [hb]; exact nofun))
      obtain ⟨hfits, hlen, rfl⟩ := (bodyRead_strict cp hstrict).1 b hb
      obtain ⟨ds, hds, rfl⟩ := Delivers.ofCoded cp hfits
      have hcrlf : rest.take 2 = [Chunked.CR, Chunked.LF] := by
        by_contra hno
        rw [datasetRead, (putRead_eq false cp hds).2 hno] at hp
        cases hp
      obtain ⟨t, rfl⟩ := take_two_crlf hcrlf
      rw [createRead_eq] at hc
      split at hc
      · cases hc
      · next hne =>
        have hmap := congrArg List.length (Option.some.inj hc)
        rw [List.length_map, List.length_map, List.length_take] at hmap
        have hpos := List.length_pos_of_ne_nil hne
        refine ⟨_, t, hfits, List.ne_nil_of_length_pos (by omega), hlen, ?_⟩
        rw [← createChunks_length, hmap]
        have : LOCAL_BODY - 1 < LOCAL_BODY := by decide
        omega
  · rintro (⟨b, rest, hfits, hne, hlen, hno⟩ | hbroken)
    · have hstrict : Chunked.Strict c.unread b (Chunked.CR :: Chunked.LF :: rest) :=
        hfits.mono fun _ _ => trivial
      obtain ⟨ds, hds, hb⟩ := Delivers.ofCoded cp hfits
      have hput : ∀ p, putRead p cp c = some b := fun p => by
        rw [(putRead_eq p cp hds).1 rfl, hb]
      have hcreate := createChunks_coded cp hfits (.start c) rfl (Nat.succ_pos _) hno
      have hbody : ((createChunks cp).exec (.start c)).body = b.take (LOCAL_BODY - 1) := hcreate
      refine ⟨.inr ⟨b, (bodyRead_strict cp hstrict).2 hfits hlen, hput false, hput true, ?_⟩,
        fun _ => ⟨b, _, hstrict⟩⟩
      rw [createRead_eq, hbody, if_neg]
      rw [List.take_eq_nil_iff]
      exact fun h => h.elim (by decide) hne
    · obtain ⟨h1, h2, h3, h4⟩ := (readers_reject_iff cp c).mpr hbroken
      refine ⟨.inl ⟨h1, h2, h3, h4⟩, ?_⟩
      rintro (h | h | h | h)
      · exact absurd h1 h
      · exact absurd h2 h
      · exact absurd h3 h
      · exact absurd h4 h

/-- A size line of no digits: rejected by one reader, an empty body to two others. -/
theorem readers_disagree : ¬ ReadersAgree HttpCp.cp037
    ⟨[0x78, 0x79, 0x0D, 0x0A, 0x0D, 0x0A], []⟩ := by
  rintro ⟨hrej | ⟨b, hb, -⟩, -⟩
  · exact absurd hrej.2.1 (by decide +kernel)
  · exact absurd hb (by
      rw [show bodyRead HttpCp.cp037 ⟨[0x78, 0x79, 0x0D, 0x0A, 0x0D, 0x0A], []⟩ = none by
        decide +kernel]
      exact nofun)

end Mvsmf
