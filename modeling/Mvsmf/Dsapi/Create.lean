import Mvsmf.Common.Answer
import Mvsmf.Common.Receive

/-!
# The request body of `datasetCreateHandler`

The handler takes POST_STRING when HTTPD has set it. Otherwise it reads the body from the socket
into `local_body`, an array of 4096 bytes on the stack, chunk by chunk or by the Content-Length,
ends it with a zero and translates it in place. The model keeps every index of the array the
handler stores to. A byte stored behind the array is kept in `body` all the same, as the next
turn of the loop counts it.
-/

namespace Mvsmf

/-- `sizeof(local_body)`. -/
def LOCAL_BODY : Nat := 4096

def REASON_INVALID_ALLOC_PARAMS : Int := 3

def invalidAllocParams : Answer :=
  ⟨Answer.HTTP_STATUS_BAD_REQUEST, Answer.CATEGORY_SERVICE, Answer.RC_ERROR,
    REASON_INVALID_ALLOC_PARAMS, "Invalid or missing allocation parameters", []⟩

/-- What the handler asks the environment for. -/
structure CreateRequest where
  postString : Option (List Char)
  transferEncoding : Option (List Char)
  contentLength : Option (List Char)
  deriving DecidableEq, Repr

/-- POST_STRING is missing or empty. -/
def CreateRequest.readsSocket (req : CreateRequest) : Bool := (req.postString.getD []).isEmpty

/-- `te && strstr(te, "chunked") != NULL`, in all the handlers. -/
def isChunked (transferEncoding : Option (List Char)) : Bool :=
  match transferEncoding with
  | some te => CLib.strstr "chunked".toList te
  | none => false

/-- `body` is what stands in the array, its length is `body_size`, and `stores` are the indices the
received bytes went to. -/
structure CreateState where
  conn : Conn
  body : List UInt8
  stores : List Nat
  deriving DecidableEq, Repr

namespace CreateState

def start (c : Conn) : CreateState := ⟨c, [], []⟩

/-- A received byte behind those the array holds. -/
def store (s : CreateState) (b : UInt8) (c : Conn) : CreateState :=
  ⟨c, s.body ++ [b], s.stores ++ [s.body.length]⟩

/-- The bytes received so far went to the indices from 0 on. -/
def InOrder (s : CreateState) : Prop := s.stores = List.range s.body.length

theorem InOrder.store {s : CreateState} (h : s.InOrder) (b : UInt8) (c : Conn) :
    (s.store b c).InOrder := by
  simp [InOrder, CreateState.store, List.range_succ, show s.stores = _ from h]

end CreateState

/-- The data of one chunk, of which `n` bytes have come. -/
def createBytes (chunkSize : Nat) : Loop (Nat × CreateState) CreateState where
  step := fun (n, s) =>
    if n < chunkSize then
      match s.conn.receiveRawData 1 with
      | (b :: _, c) =>
        if (s.store b c).body.length ≥ LOCAL_BODY - 1 then .inr (s.store b c)
        else .inl (n + 1, s.store b c)
      | ([], c) => .inr { s with conn := c }
    else .inr s
  measure := fun (n, _) => chunkSize - n
  lowers := by
    rintro ⟨n, s⟩ ⟨n', s'⟩ h
    simp only at h ⊢
    split at h
    · split at h
      · split at h
        · cases h
        · cases h
          omega
      · cases h
    · cases h

def createChunkStep (cp : HttpCp) (s : CreateState) : CreateState ⊕ CreateState :=
  let (line, _, c) := sizeLine s.conn
  let chunkSize := sizeValue cp line
  if chunkSize = 0 then .inr { s with conn := (c.receiveRawData 2).2 }
  else
    let s' := (createBytes chunkSize).exec (0, { s with conn := c })
    .inl { s' with conn := (s'.conn.receiveRawData 2).2 }

/-! ## One chunk -/

/-- How many bytes of a chunk the inner loop takes: the test for a full array comes after the
store, so it takes one even when there is no room. -/
def chunkTake (bodySize chunkSize : Nat) : Nat :=
  min chunkSize (max 1 (LOCAL_BODY - 1 - bodySize))

theorem createBytes_exec (chunkSize n : Nat) (s : CreateState) :
    let k := chunkTake s.body.length (chunkSize - n)
    let s' := (createBytes chunkSize).exec (n, s)
    s'.body = s.body ++ s.conn.unread.take k ∧ s'.conn.unread = s.conn.unread.drop k ∧
      (s.InOrder → s'.InOrder) := by
  refine (createBytes chunkSize).rule (P := fun p s' =>
    s'.body = p.2.body ++ p.2.conn.unread.take (chunkTake p.2.body.length (chunkSize - p.1)) ∧
    s'.conn.unread = p.2.conn.unread.drop (chunkTake p.2.body.length (chunkSize - p.1)) ∧
    (p.2.InOrder → s'.InOrder)) ?_ ?_ (n, s)
  · rintro ⟨n, s⟩ s' h
    simp only [createBytes] at h
    split at h
    · next hn =>
      split at h
      · next b t c hr =>
        split at h
        · next hfull =>
          cases h
          have hk : chunkTake s.body.length (chunkSize - n) = 1 := by
            simp only [CreateState.store, List.length_append, List.length_singleton] at hfull
            unfold chunkTake
            omega
          obtain ⟨h1, h2⟩ := Prod.mk.inj hr
          rw [hk, ← h2]
          have hb : [b] = s.conn.unread.take 1 := by
            rcases hu : s.conn.unread with _ | ⟨b', u⟩ <;> simp [hu] at h1 ⊢
            exact h1.1.symm
          exact ⟨by rw [← hb]; rfl, rfl, fun hi => hi.store b _⟩
        · cases h
      · next c hr =>
        cases h
        obtain ⟨h1, h2⟩ := Prod.mk.inj hr
        have hu : s.conn.unread = [] := by
          rcases hu : s.conn.unread with _ | ⟨b', u⟩
          · rfl
          · simp [hu] at h1
        rw [← h2]
        simp [hu, CreateState.InOrder]
    · next hn =>
      cases h
      have hk : chunkTake s.body.length (chunkSize - n) = 0 := by
        unfold chunkTake
        omega
      rw [hk]
      simp
  · rintro ⟨n, s⟩ p' h ih
    simp only [createBytes] at h
    split at h
    · next hn =>
      split at h
      · next b t c hr =>
        split at h
        · cases h
        · next hroom =>
          cases h
          obtain ⟨h1, h2⟩ := Prod.mk.inj hr
          obtain ⟨i1, i2, i3⟩ := ih
          simp only [CreateState.store, List.length_append, List.length_singleton] at hroom
          rw [show (s.store b c).body = s.body ++ [b] from rfl,
            show (s.store b c).conn = c from rfl, List.length_append, List.length_singleton] at i1
          rw [show (s.store b c).body = s.body ++ [b] from rfl,
            show (s.store b c).conn = c from rfl, List.length_append, List.length_singleton] at i2
          have hk : chunkTake s.body.length (chunkSize - n) =
              chunkTake (s.body.length + 1) (chunkSize - (n + 1)) + 1 := by
            unfold chunkTake
            omega
          rcases hu : s.conn.unread with _ | ⟨b', u⟩
          · simp [hu] at h1
          · simp only [hu, List.take_succ_cons, List.take_zero, List.cons.injEq] at h1
            obtain ⟨rfl, rfl⟩ := h1
            have hc : c.unread = u := by rw [← h2, hu]; rfl
            rw [hc] at i1 i2
            rw [hk, i1, i2]
            exact ⟨by simp, by simp, fun hi => i3 (hi.store _ _)⟩
      · cases h
    · cases h

/-- What one turn does: the size line has a value, and as much of the chunk as the inner loop takes
stands behind the body. -/
theorem createChunkStep_inl {cp : HttpCp} {s s' : CreateState}
    (h : createChunkStep cp s = .inl s') :
    ∃ line e c, sizeLine s.conn = (line, e, c) ∧ sizeValue cp line ≠ 0 ∧
      s'.body = s.body ++ c.unread.take (chunkTake s.body.length (sizeValue cp line)) ∧
      s'.conn.unread = c.unread.drop (chunkTake s.body.length (sizeValue cp line) + 2) ∧
      (s.InOrder → s'.InOrder) := by
  unfold createChunkStep at h
  rcases hl : sizeLine s.conn with ⟨line, e, c⟩
  simp only [hl] at h
  split at h
  · cases h
  · next hv =>
    cases h
    obtain ⟨h1, h2, h3⟩ := createBytes_exec (sizeValue cp line) 0 { s with conn := c }
    refine ⟨line, e, c, rfl, hv, h1, ?_, fun hi => h3 hi⟩
    rw [Conn.receiveRawData_unread, h2, List.drop_drop]
    rfl

theorem createChunkStep_inr {cp : HttpCp} {s s' : CreateState}
    (h : createChunkStep cp s = .inr s') :
    (∃ line e c, sizeLine s.conn = (line, e, c) ∧ sizeValue cp line = 0) ∧
      s'.body = s.body ∧ s'.stores = s.stores := by
  unfold createChunkStep at h
  rcases hl : sizeLine s.conn with ⟨line, e, c⟩
  simp only [hl] at h
  split at h
  · next hv => cases h; exact ⟨⟨line, e, c, rfl, hv⟩, rfl, rfl⟩
  · cases h

/-- The chunk loop. -/
def createChunks (cp : HttpCp) : Loop CreateState CreateState where
  step := createChunkStep cp
  measure := fun s => s.conn.unread.length
  lowers := by
    intro s s' h
    obtain ⟨line, e, c, hl, hv, -, hu, -⟩ := createChunkStep_inl h
    have h1 := sizeLine_unread hl
    have h2 := sizeValue_pos hv
    rw [hu, List.length_drop]
    omega

/-- The Content-Length loop. -/
def createLength (contentLength : Nat) : Loop CreateState CreateState where
  step := fun s =>
    if s.body.length < contentLength then
      match s.conn.receiveRawData 1 with
      | (b :: _, c) => .inl (s.store b c)
      | ([], c) => .inr { s with conn := c }
    else .inr s
  measure := fun s => contentLength - s.body.length
  lowers := by
    intro s s' h
    split at h
    · split at h
      · cases h
        simp only [CreateState.store, List.length_append, List.length_singleton]
        omega
      · cases h
    · cases h

/-! ## The whole body -/

/-- The body in native characters or the answer that refuses it, and every index of `local_body`
stored to. -/
structure CreateBody where
  body : Except Answer (List Char)
  stores : List Nat
  conn : Conn

/-- The body as the framing in the request has it. -/
def createReceive (cp : HttpCp) (req : CreateRequest) (c : Conn) : CreateState :=
  if isChunked req.transferEncoding then (createChunks cp).exec (.start c)
  else
    match req.contentLength with
    | some cl => (createLength (min (CLib.strtoul 10 cl).1 (LOCAL_BODY - 1))).exec (.start c)
    | none => .start c

def createBody (cp : HttpCp) (req : CreateRequest) (c : Conn) : CreateBody :=
  if req.readsSocket then
    let s := createReceive cp req c
    -- memset() of the whole array comes first
    let stores := List.range LOCAL_BODY ++ s.stores
    if s.body = [] then ⟨.error invalidAllocParams, stores, s.conn⟩
    else
      ⟨.ok (s.body.map cp.native), stores ++ [s.body.length] ++ List.range s.body.length, s.conn⟩
  else ⟨.ok (req.postString.getD []), [], c⟩

theorem createLength_exec {contentLength : Nat} {s : CreateState} (hi : s.InOrder)
    (hl : s.body.length ≤ contentLength) :
    ((createLength contentLength).exec s).InOrder ∧
      ((createLength contentLength).exec s).body.length ≤ contentLength := by
  refine (createLength contentLength).invariant
    (I := fun s => s.InOrder ∧ s.body.length ≤ contentLength)
    (Q := fun s => s.InOrder ∧ s.body.length ≤ contentLength) ?_ ?_ ⟨hi, hl⟩
  · rintro s s' ⟨hi, hl⟩ h
    simp only [createLength] at h
    split at h
    · split at h
      · cases h
        refine ⟨hi.store _ _, ?_⟩
        simp only [CreateState.store, List.length_append, List.length_singleton]
        omega
      · cases h
    · cases h
  · rintro s s' ⟨hi, hl⟩ h
    simp only [createLength] at h
    split at h
    · split at h
      · cases h
      · cases h
        exact ⟨hi, hl⟩
    · cases h
      exact ⟨hi, hl⟩

theorem CreateState.start_inOrder (c : Conn) : (CreateState.start c).InOrder := rfl

theorem createChunks_inOrder (cp : HttpCp) {s : CreateState} (hi : s.InOrder) :
    ((createChunks cp).exec s).InOrder := by
  refine (createChunks cp).invariant (I := CreateState.InOrder) (Q := CreateState.InOrder) ?_ ?_ hi
  · intro s s' hi h
    obtain ⟨_, _, _, -, -, -, -, hk⟩ := createChunkStep_inl h
    exact hk hi
  · intro s s' hi h
    obtain ⟨-, hb, hs⟩ := createChunkStep_inr h
    rw [CreateState.InOrder, hs, hb]
    exact hi

theorem createReceive_inOrder (cp : HttpCp) (req : CreateRequest) (c : Conn) :
    (createReceive cp req c).InOrder := by
  unfold createReceive
  split
  · exact createChunks_inOrder cp (CreateState.start_inOrder c)
  · split
    · exact (createLength_exec (CreateState.start_inOrder c) (Nat.zero_le _)).1
    · exact CreateState.start_inOrder c

/-- The stores are inside the array exactly when the body leaves room for the terminating zero. -/
theorem createBody_stores {cp : HttpCp} {req : CreateRequest} {c : Conn}
    (hs : req.readsSocket = true) :
    (∀ i ∈ (createBody cp req c).stores, i < LOCAL_BODY) ↔
      (createReceive cp req c).body.length < LOCAL_BODY := by
  have hio := createReceive_inOrder cp req c
  unfold createBody
  rw [if_pos hs]
  generalize createReceive cp req c = s at hio
  simp only
  rw [show s.stores = _ from hio]
  split
  · next h0 => simp [h0, LOCAL_BODY]
  · simp only [List.append_assoc, List.mem_append, List.mem_range, List.mem_singleton]
    constructor
    · intro h
      exact h _ (.inr (.inr (.inl rfl)))
    · rintro h i (hi | hi | rfl | hi) <;> omega

/-! ## When the chunks run over the array -/

/-- `Fills cp room c rest`: the chunks read from `c` deliver at least `room` data bytes, and `rest`
is what the reader goes on with behind the chunk that made it full. -/
inductive Fills (cp : HttpCp) : Nat → List UInt8 → List UInt8 → Prop
  | full {s : List UInt8} : Fills cp 0 s s
  | chunk {room : Nat} {s rest line : List UInt8} {e : LineEnd} {c : Conn}
      (hl : sizeLine ⟨s, []⟩ = (line, e, c)) (h0 : room ≠ 0) (hv : sizeValue cp line ≠ 0)
      (hd : min (sizeValue cp line) room ≤ c.unread.length)
      (tail : Fills cp (room - sizeValue cp line)
        (c.unread.drop (min (sizeValue cp line) room + 2)) rest) : Fills cp room s rest

/-- Another chunk of which a byte comes. -/
def Another (cp : HttpCp) (s : List UInt8) : Prop :=
  let (line, _, c) := sizeLine ⟨s, []⟩
  sizeValue cp line ≠ 0 ∧ c.unread ≠ []

/-- Bytes of a chunk come behind the one that filled the array up to its last place. -/
def Overruns (cp : HttpCp) (s : List UInt8) : Prop :=
  ∃ rest, Fills cp (LOCAL_BODY - 1) s rest ∧ Another cp rest

theorem not_fills_nil {cp : HttpCp} {room : Nat} (h : room ≠ 0) (rest : List UInt8) :
    ¬ Fills cp room [] rest := by
  rintro (_ | ⟨hl, _, hv, _⟩)
  · exact h rfl
  · cases hl
    exact hv (sizeValue_nil cp)

theorem not_another_nil (cp : HttpCp) : ¬ Another cp [] := fun h => h.1 (sizeValue_nil cp)

/-- One size line decides whether the rest fills the array. -/
theorem fills_iff {cp : HttpCp} {room : Nat} (h0 : room ≠ 0) {s rest line : List UInt8}
    {e : LineEnd} {c : Conn} (hl : sizeLine ⟨s, []⟩ = (line, e, c)) :
    Fills cp room s rest ↔ sizeValue cp line ≠ 0 ∧
      min (sizeValue cp line) room ≤ c.unread.length ∧
      Fills cp (room - sizeValue cp line)
        (c.unread.drop (min (sizeValue cp line) room + 2)) rest := by
  constructor
  · rintro (_ | ⟨hl', _, hv, hd, tail⟩)
    · exact absurd rfl h0
    · obtain ⟨rfl, rfl, rfl⟩ : line = _ ∧ e = _ ∧ c = _ := by
        simpa [hl] using hl'
      exact ⟨hv, hd, tail⟩
  · rintro ⟨hv, hd, tail⟩
    exact .chunk hl h0 hv hd tail

theorem createChunks_length_le (cp : HttpCp) (s : CreateState) :
    s.body.length ≤ ((createChunks cp).exec s).body.length := by
  refine (createChunks cp).rule (P := fun s s' => s.body.length ≤ s'.body.length) ?_ ?_ s
  · intro s s' h
    rw [(createChunkStep_inr h).2.1]
  · intro s s' h ih
    obtain ⟨_, _, _, -, -, hb, -, -⟩ := createChunkStep_inl h
    rw [hb, List.length_append] at ih
    omega

/-- With room left the body comes to 4096 bytes only by a chunk behind the one that fills the
array. -/
theorem createChunks_overrun (cp : HttpCp) (s : CreateState) (hs : s.body.length < LOCAL_BODY) :
    LOCAL_BODY ≤ ((createChunks cp).exec s).body.length ↔
      ∃ rest, Fills cp (LOCAL_BODY - 1 - s.body.length) s.conn.unread rest ∧
        Another cp rest := by
  refine (createChunks cp).rule (P := fun s s' => s.body.length < LOCAL_BODY →
    (LOCAL_BODY ≤ s'.body.length ↔ ∃ rest,
      Fills cp (LOCAL_BODY - 1 - s.body.length) s.conn.unread rest ∧ Another cp rest)) ?_ ?_ s hs
  · intro s s' h hs
    obtain ⟨⟨line, e, c, hl, hv⟩, hb, -⟩ := createChunkStep_inr h
    obtain ⟨d, hd, -⟩ := sizeLine_bulk hl
    refine iff_of_false (by rw [hb]; omega) ?_
    rintro ⟨rest, hf, ha⟩
    by_cases h0 : LOCAL_BODY - 1 - s.body.length = 0
    · rw [h0] at hf
      obtain _ | ⟨_, h', _⟩ := hf
      · simp only [Another, hd] at ha
        exact ha.1 hv
      · exact h' rfl
    · exact ((fills_iff h0 hd).mp hf).1 hv
  · intro s s' h ih hs
    obtain ⟨line, e, c, hl, hv, hb, hu, -⟩ := createChunkStep_inl h
    obtain ⟨d, hd, hdu⟩ := sizeLine_bulk hl
    have hlen := congrArg List.length hb
    rw [List.length_append, List.length_take] at hlen
    by_cases h0 : LOCAL_BODY - 1 - s.body.length = 0
    · -- the array is full up to its last place: a byte of this chunk overruns it
      have hk : chunkTake s.body.length (sizeValue cp line) = 1 := by
        unfold chunkTake
        omega
      rw [hk] at hlen hu
      rw [h0]
      by_cases hc : c.unread = []
      · simp only [hc, List.length_nil, Nat.min_zero, Nat.add_zero] at hlen
        rw [ih (by omega), hlen, h0, hu, hc]
        refine iff_of_false ?_ ?_
        · rintro ⟨rest, _ | ⟨_, h', _⟩, ha⟩
          · exact not_another_nil cp ha
          · exact h' rfl
        · rintro ⟨rest, _ | ⟨_, h', _⟩, ha⟩
          · simp only [Another, hd, hdu, hc] at ha
            exact ha.2 rfl
          · exact h' rfl
      · have hpos := List.length_pos_of_ne_nil hc
        refine iff_of_true ?_ ⟨_, .full, ?_⟩
        · have := createChunks_length_le cp s'
          omega
        · simp only [Another, hd, hdu]
          exact ⟨hv, hc⟩
    · have hk : chunkTake s.body.length (sizeValue cp line) =
          min (sizeValue cp line) (LOCAL_BODY - 1 - s.body.length) := by
        unfold chunkTake
        omega
      rw [hk] at hlen hu
      rw [ih (by omega), hu]
      simp only [fills_iff h0 hd, hdu]
      by_cases hc : min (sizeValue cp line) (LOCAL_BODY - 1 - s.body.length) ≤ c.unread.length
      · have hroom : LOCAL_BODY - 1 - s'.body.length =
            LOCAL_BODY - 1 - s.body.length - sizeValue cp line := by omega
        rw [hroom]
        constructor
        · rintro ⟨rest, hf, ha⟩
          exact ⟨rest, ⟨hv, hc, hf⟩, ha⟩
        · rintro ⟨rest, ⟨-, -, hf⟩, ha⟩
          exact ⟨rest, hf, ha⟩
      · rw [List.drop_eq_nil_of_le (by omega)]
        refine iff_of_false ?_ (fun ⟨_, ⟨_, hc', _⟩, _⟩ => hc hc')
        rintro ⟨rest, hf, -⟩
        exact not_fills_nil (by omega) rest hf

theorem createReceive_overrun (cp : HttpCp) (req : CreateRequest) (c : Conn) :
    (createReceive cp req c).body.length < LOCAL_BODY ↔
      ¬ (isChunked req.transferEncoding = true ∧ Overruns cp c.unread) := by
  unfold createReceive
  split
  · next hch =>
    have := createChunks_overrun cp (.start c) (Nat.succ_pos _)
    rw [← Nat.not_le, this, hch]
    exact not_congr ⟨fun h => ⟨rfl, h⟩, fun h => h.2⟩
  · next hch =>
    refine iff_of_true ?_ (fun h => hch h.1)
    split
    · refine Nat.lt_of_le_of_lt
        (createLength_exec (CreateState.start_inOrder c) (Nat.zero_le _)).2 ?_
      exact Nat.lt_of_le_of_lt (Nat.min_le_right _ _) (by decide)
    · exact Nat.succ_pos _

/-- Every store into `local_body` is inside it unless the body comes in chunks of which one brings
a byte behind the 4095th. -/
theorem createBody_inBounds_iff (cp : HttpCp) (req : CreateRequest) (c : Conn) :
    (∀ i ∈ (createBody cp req c).stores, i < LOCAL_BODY) ↔
      ¬ (req.readsSocket = true ∧ isChunked req.transferEncoding = true ∧
        Overruns cp c.unread) := by
  by_cases hs : req.readsSocket = true
  · rw [createBody_stores hs, createReceive_overrun, hs]
    simp
  · refine iff_of_true ?_ (fun h => hs h.1)
    simp [createBody, hs]

/-- A chunk that fills the array up to its last place and behind it a chunk of one byte. -/
def overrunStream (data : List UInt8) : List UInt8 :=
  [0x46, 0x46, 0x46, 0x0D, 0x0A] ++ (data ++
    [0x0D, 0x0A, 0x31, 0x0D, 0x0A, 0x58, 0x0D, 0x0A, 0x30, 0x0D, 0x0A, 0x0D, 0x0A])

theorem overrunStream_overruns {data : List UInt8} (hd : data.length = 4095) :
    Overruns HttpCp.cp037 (overrunStream data) := by
  have hv : sizeValue HttpCp.cp037 [0x46, 0x46, 0x46] = 4095 := by decide +kernel
  let behind : List UInt8 :=
    [0x0D, 0x0A, 0x31, 0x0D, 0x0A, 0x58, 0x0D, 0x0A, 0x30, 0x0D, 0x0A, 0x0D, 0x0A]
  have hl : sizeLine ⟨overrunStream data, []⟩ =
      ([0x46, 0x46, 0x46], .cr, ⟨data ++ behind, []⟩) := rfl
  refine ⟨_, .chunk hl (by decide) (by rw [hv]; decide) ?_ .full, ?_⟩
  · rw [hv, List.length_append, hd]
    decide
  · rw [hv, show min 4095 (LOCAL_BODY - 1) + 2 = data.length + 2 by rw [hd]; rfl,
      ← List.drop_drop, List.drop_left]
    exact ⟨by decide +kernel, by decide⟩

/-- The terminating zero of that body goes behind the array. -/
theorem createBody_outOfBounds : ¬ ∀ i ∈ (createBody HttpCp.cp037
    ⟨none, some "chunked".toList, none⟩ ⟨overrunStream (List.replicate 4095 0x58), []⟩).stores,
    i < LOCAL_BODY := by
  intro h
  rw [createBody_stores rfl, createReceive_overrun] at h
  exact h ⟨by decide, overrunStream_overruns List.length_replicate⟩

end Mvsmf
