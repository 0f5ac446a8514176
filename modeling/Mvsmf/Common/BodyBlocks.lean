import Mvsmf.Common.BodyRun
import Mvsmf.Lib.Leases

/-!
# The blocks of `read_body`

`read_body` over any `recv` of `BODY_OPS`: it may come back short, or with nothing, at every call. Each
block has the number of the request it was granted by, a block that is resized is a new one, and the
calls of the allocator are followed block by block. Over the connection of `receiveRawData` it is the
`readBody` of before (`readBody_connRecv`).
-/

namespace Mvsmf

universe u

/-- `recv` over the states of a connection: up to `len` bytes, none where the code sees 0 or less. A
connection carries finitely many bytes, and what is received lowers `left`. -/
structure BodyRecv (σ : Type u) where
  recv : σ → Nat → List UInt8 × σ
  left : σ → Nat
  recv_le : ∀ s n, (recv s n).1.length ≤ n
  recv_lt : ∀ s n, (recv s n).1 ≠ [] → left (recv s n).2 < left s
  left_le : ∀ s n, left (recv s n).2 ≤ left s

/-- A call of the allocator, with the block it is granted. -/
inductive StorageCall
  | alloc (size : Nat) (got : Option Nat)
  | resize (block size : Nat) (got : Option Nat)
  | release (block : Option Nat)
  | nomem
  deriving DecidableEq, Repr

/-- What `read_body` leaves: with its return code `*content`, the connection, the calls of the
allocator, and what it stores into the block behind what it received. -/
structure BodyResult (σ : Type u) where
  rc : BodyRc
  content : Option (Nat × List UInt8)
  conn : σ
  calls : List StorageCall
  stored : Option (Nat × UInt8)
  deriving DecidableEq, Repr

/-- The locals of `read_chunked`, the bytes in the block and the number of requests so far. -/
structure BlockState (σ : Type u) where
  conn : σ
  buf : Option Nat
  bytes : List UInt8
  size : Nat
  nomem : Bool
  asked : Nat
  calls : List StorageCall
  deriving DecidableEq, Repr

/-- A request for storage. -/
def BodyOps.granted (ops : BodyOps) (asked : Nat) : Option Nat :=
  if ops.grant asked then some asked else none

namespace BlockState

variable {σ : Type u}

def start (c : σ) : BlockState σ := ⟨c, none, [], 0, false, 0, []⟩

/-- `fail:`. -/
def fail (s : BlockState σ) (rc : BodyRc) (c : σ) : BodyResult σ :=
  ⟨if s.nomem then .nomem else rc, none, c,
    if s.buf.isSome then s.calls ++ [.release s.buf] else s.calls, none⟩

/-- Room for `chunk` more bytes; when it is refused the block is given up. -/
def grow (ops : BodyOps) (s : BlockState σ) (chunk : Nat) : BlockState σ :=
  if s.nomem then s
  else
    let grown := ops.granted s.asked
    let call := match s.buf with
      | some p => StorageCall.resize p (s.size + chunk + 1) grown
      | none => .alloc (s.size + chunk + 1) grown
    if grown.isSome then
      { s with buf := grown, asked := s.asked + 1, calls := s.calls ++ [call] }
    else
      { s with buf := none, nomem := true, asked := s.asked + 1,
               calls := s.calls ++ [call, .nomem, .release s.buf] }

/-- Behind the last chunk: the block, or one byte for an empty body. -/
def finish (ops : BodyOps) (s : BlockState σ) (c : σ) : BodyResult σ :=
  if s.nomem then ⟨.nomem, none, c, s.calls, none⟩
  else
    match s.buf with
    | some p => ⟨.ok, some (p, s.bytes), c, s.calls, some (s.size, 0)⟩
    | none =>
      match ops.granted s.asked with
      | some p => ⟨.ok, some (p, []), c, s.calls ++ [.alloc 1 (some p)], some (s.size, 0)⟩
      | none => ⟨.nomem, none, c, s.calls ++ [.alloc 1 none, .nomem], none⟩

end BlockState

namespace BodyRecv

variable {σ : Type u} (r : BodyRecv σ)

/-! ## Reading -/

def drain : Loop (Nat × σ) (Bool × σ) where
  step := fun (n, c) =>
    if n = 0 then .inr (true, c)
    else
      let (got, c') := r.recv c (min n DRAIN_BUF)
      if got = [] then .inr (false, c') else .inl (n - got.length, c')
  measure := fun (n, _) => n
  lowers := by
    rintro ⟨n, c⟩ ⟨n', c'⟩ h
    simp only at h ⊢
    split at h
    · cases h
    · next h0 =>
      split at h
      · cases h
      · next hg =>
        have := List.length_pos_of_ne_nil hg
        cases h
        omega

def readExact : Loop (List UInt8 × Nat × σ) (Option (List UInt8) × σ) where
  step := fun (buf, n, c) =>
    if n = 0 then .inr (some buf, c)
    else
      let (got, c') := r.recv c n
      if got = [] then .inr (none, c') else .inl (buf ++ got, n - got.length, c')
  measure := fun (_, n, _) => n
  lowers := by
    rintro ⟨b, n, c⟩ ⟨b', n', c'⟩ h
    simp only at h ⊢
    split at h
    · cases h
    · next h0 =>
      split at h
      · cases h
      · next hg =>
        have := List.length_pos_of_ne_nil hg
        cases h
        omega

def readLength (ops : BodyOps) (contentLength : List Char) (c : σ) : BodyResult σ :=
  match parseLength contentLength with
  | .error rc => ⟨rc, none, c, [], none⟩
  | .ok len =>
    match ops.granted 0 with
    | none => ⟨.nomem, none, (r.drain.exec (len, c)).2, [.alloc (len + 1) none, .nomem], none⟩
    | some p =>
      match r.readExact.exec ([], len, c) with
      | (none, c') => ⟨.bad, none, c', [.alloc (len + 1) (some p), .release (some p)], none⟩
      | (some buf, c') => ⟨.ok, some (p, buf), c', [.alloc (len + 1) (some p)], some (len, 0)⟩

/-- The chunk-size line, with its CR and the byte behind it. -/
def sizeLineIn : Nat → σ → List UInt8 × LineEnd × σ
  | 0, c => ([], .full, c)
  | room + 1, c =>
    match r.recv c 1 with
    | (b :: _, c') =>
      if b = Chunked.CR then ([], .cr, (r.recv c' 1).2)
      else
        let (line, e, c'') := sizeLineIn room c'
        (b :: line, e, c'')
    | ([], c') => ([], .closed, c')

def sizeLine (c : σ) : List UInt8 × LineEnd × σ := r.sizeLineIn (CHUNK_LINE_MAX - 1) c

/-- The chunk's data, into the block or thrown away, and the CRLF behind it. -/
def chunkData (s : BlockState σ) (chunk : Nat) (c : σ) : BlockState σ ⊕ BodyResult σ :=
  if s.nomem then
    match r.drain.exec (chunk, c) with
    | (false, c') => .inr ⟨.nomem, none, c', s.calls, none⟩
    | (true, c') =>
      let (crlf, c'') := r.recv c' 2
      if crlf.length = 2 then .inl { s with conn := c'' }
      else .inr ⟨.nomem, none, c'', s.calls, none⟩
  else
    match r.readExact.exec (s.bytes, chunk, c) with
    | (none, c') => .inr (s.fail .bad c')
    | (some b, c') =>
      let s := { s with bytes := b, size := s.size + chunk }
      let (crlf, c'') := r.recv c' 2
      if crlf.length = 2 then .inl { s with conn := c'' } else .inr (s.fail .bad c'')

def chunkStep (ops : BodyOps) (s : BlockState σ) : BlockState σ ⊕ BodyResult σ :=
  match r.sizeLine s.conn with
  | (line, .cr, c) =>
    let chunk := sizeValue ops.cp line
    if noDigits ops.cp line then .inr (s.fail .bad c)
    else if chunk ≥ REQBODY_MAX - s.size then .inr (s.fail .tooLarge c)
    else if chunk = 0 then .inr (s.finish ops (r.recv c 2).2)
    else r.chunkData (s.grow ops chunk) chunk c
  | (_, _, c) => .inr (s.fail .bad c)

theorem drain_left (n : Nat) (c : σ) : r.left (r.drain.exec (n, c)).2 ≤ r.left c := by
  refine r.drain.rule (P := fun s out => r.left out.2 ≤ r.left s.2) ?_ ?_ (n, c)
  · rintro ⟨n, c⟩ out h
    simp only [drain] at h
    split at h
    · cases h
      exact Nat.le_refl _
    · split at h
      · cases h
        exact r.left_le _ _
      · cases h
  · rintro ⟨n, c⟩ s' h ih
    simp only [drain] at h
    split at h
    · cases h
    · split at h
      · cases h
      · cases h
        exact Nat.le_trans ih (r.left_le _ _)

theorem readExact_left (buf : List UInt8) (n : Nat) (c : σ) :
    r.left (r.readExact.exec (buf, n, c)).2 ≤ r.left c := by
  refine r.readExact.rule (P := fun s out => r.left out.2 ≤ r.left s.2.2) ?_ ?_ (buf, n, c)
  · rintro ⟨buf, n, c⟩ out h
    simp only [readExact] at h
    split at h
    · cases h
      exact Nat.le_refl _
    · split at h
      · cases h
        exact r.left_le _ _
      · cases h
  · rintro ⟨buf, n, c⟩ s' h ih
    simp only [readExact] at h
    split at h
    · cases h
    · split at h
      · cases h
      · cases h
        exact Nat.le_trans ih (r.left_le _ _)

/-- A size line with its CR has taken at least that CR. -/
theorem sizeLineIn_left {room : Nat} {c c' : σ} {line : List UInt8}
    (h : r.sizeLineIn room c = (line, .cr, c')) : r.left c' < r.left c := by
  induction room generalizing c line with
  | zero => cases h
  | succ room ih =>
    rw [sizeLineIn] at h
    split at h
    · next b bs d hrecv =>
      have hlt : r.left d < r.left c := by
        have := r.recv_lt c 1
        rw [hrecv] at this
        exact this (List.cons_ne_nil b bs)
      split at h
      · cases h
        exact Nat.lt_of_le_of_lt (r.left_le _ _) hlt
      · rcases hrest : r.sizeLineIn room d with ⟨line', e, d'⟩
        rw [hrest] at h
        cases h
        exact Nat.lt_trans (ih hrest) hlt
    · cases h

theorem chunkData_left {s s' : BlockState σ} {chunk : Nat} {c : σ}
    (h : r.chunkData s chunk c = .inl s') : r.left s'.conn ≤ r.left c := by
  unfold chunkData at h
  split at h
  · split at h
    · cases h
    · next c' hdrain =>
      have hle := r.drain_left chunk c
      rw [hdrain] at hle
      simp only at h
      split at h
      · cases h
        exact Nat.le_trans (r.left_le _ _) hle
      · cases h
  · split at h
    · cases h
    · next b c' hread =>
      have hle := r.readExact_left s.bytes chunk c
      rw [hread] at hle
      simp only at h
      split at h
      · cases h
        exact Nat.le_trans (r.left_le _ _) hle
      · cases h

/-- The loop of `read_chunked`. -/
def readChunkedLoop (ops : BodyOps) : Loop (BlockState σ) (BodyResult σ) where
  step := r.chunkStep ops
  measure := fun s => r.left s.conn
  lowers := by
    intro s s' h
    unfold chunkStep at h
    split at h
    · next line c hl =>
      have hlt := r.sizeLineIn_left hl
      simp only at h
      split at h
      · cases h
      · split at h
        · cases h
        · split at h
          · cases h
          · exact Nat.lt_of_le_of_lt (r.chunkData_left h) hlt
    · cases h

def readChunked (ops : BodyOps) (c : σ) : BodyResult σ := (r.readChunkedLoop ops).exec (.start c)

def readBody (ops : BodyOps) (contentLength : Option (List Char)) (chunked : Bool) (c : σ) :
    BodyResult σ :=
  if chunked then r.readChunked ops c
  else
    match contentLength with
    | some cl => r.readLength ops cl c
    | none => ⟨.bad, none, c, [], none⟩

end BodyRecv

/-! ## Over `receiveRawData` -/

/-- A connection that comes back short only at its end. -/
def connRecv : BodyRecv Conn where
  recv := Conn.receiveRawData
  left c := c.unread.length
  recv_le c n := by
    rw [Conn.receiveRawData_fst, List.length_take]
    exact Nat.min_le_left _ _
  recv_lt c n h := by
    have hpos := List.length_pos_of_ne_nil h
    rw [Conn.receiveRawData_fst, List.length_take] at hpos
    rw [Conn.receiveRawData_unread, List.length_drop]
    omega
  left_le c n := by
    rw [Conn.receiveRawData_unread, List.length_drop]
    exact Nat.sub_le _ _

/-- The call without its block. -/
def StorageCall.op : StorageCall → HeapOp
  | .alloc size got => .alloc size got.isSome
  | .resize _ size got => .resize size got.isSome
  | .release block => .release block.isSome
  | .nomem => .nomem

def BodyResult.out (out : BodyResult Conn) : BodyOut :=
  ⟨out.rc, out.content.map Prod.snd, out.conn, out.calls.map StorageCall.op, out.stored⟩

def BlockState.body (s : BlockState Conn) : BodyState :=
  ⟨s.conn, s.buf.map fun _ => s.bytes, s.size, s.nomem, s.asked, s.calls.map StorageCall.op⟩

theorem isSome_granted (ops : BodyOps) (n : Nat) : (ops.granted n).isSome = ops.grant n := by
  unfold BodyOps.granted
  cases ops.grant n <;> rfl

/-- A block that is not there holds nothing. -/
def BlockState.Empty {σ : Type u} (s : BlockState σ) : Prop :=
  s.buf = none → s.nomem = false → s.bytes = []

namespace BlockState

theorem fail_body (s : BlockState Conn) (rc : BodyRc) (c : Conn) :
    (s.fail rc c).out = s.body.fail rc c := by
  unfold fail BodyState.fail body BodyResult.out
  cases hbuf : s.buf with
  | none => simp
  | some p => simp [StorageCall.op]

theorem finish_body (ops : BodyOps) (s : BlockState Conn) (c : Conn) :
    (s.finish ops c).out = s.body.finish ops c := by
  unfold finish BodyState.finish body BodyResult.out
  cases hnomem : s.nomem with
  | true => rfl
  | false =>
    cases hbuf : s.buf with
    | some p => rfl
    | none =>
      have hgrant := isSome_granted ops s.asked
      cases hg : ops.granted s.asked with
      | none => simp [hg, ← hgrant, StorageCall.op]
      | some p => simp [hg, ← hgrant, StorageCall.op]

theorem grow_body (ops : BodyOps) {s : BlockState Conn} (hs : s.Empty) (chunk : Nat) :
    (s.grow ops chunk).body = s.body.grow ops chunk ∧ (s.grow ops chunk).conn = s.conn ∧
      ((s.grow ops chunk).nomem = false → (s.grow ops chunk).buf.isSome = true) := by
  have hgrant := isSome_granted ops s.asked
  unfold grow BodyState.grow
  cases hnomem : s.nomem with
  | true => simp [body, hnomem]
  | false =>
    cases hg : ops.granted s.asked with
    | none =>
      cases hbuf : s.buf with
      | none => simp [body, hnomem, hg, hbuf, ← hgrant, StorageCall.op]
      | some p => simp [body, hnomem, hg, hbuf, ← hgrant, StorageCall.op]
    | some q =>
      cases hbuf : s.buf with
      | none => simp [body, hnomem, hg, hbuf, ← hgrant, StorageCall.op, hs hbuf hnomem]
      | some p => simp [body, hnomem, hg, hbuf, ← hgrant, StorageCall.op]

end BlockState

theorem sizeLineIn_connRecv (room : Nat) (c : Conn) :
    connRecv.sizeLineIn room c = sizeLineIn room c := by
  induction room generalizing c with
  | zero => rfl
  | succ room ih =>
    rw [BodyRecv.sizeLineIn, sizeLineIn, show connRecv.recv = Conn.receiveRawData from rfl]
    rcases c.receiveRawData 1 with ⟨_ | ⟨b, bs⟩, d⟩
    · rfl
    · simp only [ih]

/-- What a turn of the loop says of the older one. -/
def SameTurn (turn : BlockState Conn ⊕ BodyResult Conn) (old : BodyState ⊕ BodyOut) : Prop :=
  match turn with
  | .inl s' => old = .inl s'.body ∧ s'.Empty
  | .inr out => old = .inr out.out

theorem chunkData_connRecv {s : BlockState Conn} (hs : s.nomem = false → s.buf.isSome = true)
    (chunk : Nat) (c : Conn) :
    SameTurn (connRecv.chunkData s chunk c) (s.body.chunkData chunk c) := by
  have hdrain : connRecv.drain = drain := rfl
  have hread : connRecv.readExact = readExact := rfl
  have hrecv : connRecv.recv = Conn.receiveRawData := rfl
  unfold BodyState.chunkData BodyRecv.chunkData
  rw [hdrain, hread, hrecv]
  obtain ⟨conn, buf, bytes, size, nomem, asked, calls⟩ := s
  cases nomem with
  | true =>
    simp only [BlockState.body, if_true]
    rcases drain.exec (chunk, c) with ⟨_ | _, d⟩
    · exact rfl
    · dsimp only
      by_cases hcrlf : (d.receiveRawData 2).1.length = 2
      · rw [if_pos hcrlf, if_pos hcrlf]
        exact ⟨rfl, fun _ => nofun⟩
      · rw [if_neg hcrlf, if_neg hcrlf]
        exact rfl
  | false =>
    obtain ⟨p, rfl⟩ := Option.isSome_iff_exists.mp (hs rfl)
    simp only [BlockState.body, Bool.false_eq_true, if_false, Option.map_some, Option.getD_some]
    rcases readExact.exec (bytes, chunk, c) with ⟨_ | b, d⟩
    · let s : BlockState Conn := ⟨conn, some p, bytes, size, false, asked, calls⟩
      exact congrArg Sum.inr (s.fail_body .bad d).symm
    · dsimp only
      by_cases hcrlf : (d.receiveRawData 2).1.length = 2
      · rw [if_pos hcrlf, if_pos hcrlf]
        exact ⟨rfl, nofun⟩
      · rw [if_neg hcrlf, if_neg hcrlf]
        let s : BlockState Conn := ⟨conn, some p, b, size + chunk, false, asked, calls⟩
        exact congrArg Sum.inr (s.fail_body .bad (d.receiveRawData 2).2).symm

theorem chunkStep_connRecv (ops : BodyOps) {s : BlockState Conn} (hs : s.Empty) :
    SameTurn (connRecv.chunkStep ops s) (chunkStep ops s.body) := by
  have hline : connRecv.sizeLine s.conn = sizeLine s.body.conn := sizeLineIn_connRecv _ _
  unfold BodyRecv.chunkStep chunkStep
  rw [hline]
  rcases sizeLine s.body.conn with ⟨line, _ | _ | _, c⟩
  · dsimp only
    split
    · exact congrArg Sum.inr (s.fail_body .bad c).symm
    · rw [show s.body.size = s.size from rfl]
      split
      · exact congrArg Sum.inr (s.fail_body .tooLarge c).symm
      · split
        · exact congrArg Sum.inr (s.finish_body ops (c.receiveRawData 2).2).symm
        · obtain ⟨hgrow, -, hbuf⟩ := BlockState.grow_body ops hs (sizeValue ops.cp line)
          rw [← hgrow]
          exact chunkData_connRecv hbuf _ c
  · exact congrArg Sum.inr (s.fail_body .bad c).symm
  · exact congrArg Sum.inr (s.fail_body .bad c).symm

/-- Over a connection that comes back short only at its end this is the reader of before. -/
theorem readBody_connRecv (ops : BodyOps) (contentLength : Option (List Char)) (chunked : Bool)
    (c : Conn) :
    (connRecv.readBody ops contentLength chunked c).out = readBody ops contentLength chunked c := by
  unfold BodyRecv.readBody readBody
  cases chunked with
  | true =>
    refine (connRecv.readChunkedLoop ops).rule
      (P := fun s out => s.Empty → out.out = (readChunkedLoop ops).exec s.body) ?_ ?_ (.start c)
      fun _ _ => rfl
    · intro s out hstep hs
      have hturn := chunkStep_connRecv ops hs
      rw [show connRecv.chunkStep ops s = _ from hstep] at hturn
      exact ((readChunkedLoop ops).exec_done hturn).symm
    · intro s s' hstep ih hs
      have hturn := chunkStep_connRecv ops hs
      rw [show connRecv.chunkStep ops s = _ from hstep] at hturn
      rw [(readChunkedLoop ops).exec_next hturn.1]
      exact ih hturn.2
  | false =>
    cases contentLength with
    | none => rfl
    | some cl =>
      show (connRecv.readLength ops cl c).out = readLength ops cl c
      unfold BodyRecv.readLength readLength
      rcases parseLength cl with rc | len
      · rfl
      · have hgrant := isSome_granted ops 0
        rw [show connRecv.drain = drain from rfl, show connRecv.readExact = readExact from rfl]
        simp only [← hgrant]
        cases ops.granted 0 with
        | none => rfl
        | some p =>
          dsimp only
          rcases readExact.exec ([], len, c) with ⟨_ | buf, d⟩
          · rfl
          · rfl

/-! ## The balance of the blocks -/

/-- What becomes of the blocks: one that is resized is given up for the new one. -/
def StorageCall.events : StorageCall → List (Lease.Event Nat)
  | .alloc _ (some p) => [(p, .taken false)]
  | .resize p _ (some q) => [(p, .given false), (q, .taken false)]
  | .release (some p) => [(p, .given false)]
  | _ => []

def blockEvents (calls : List StorageCall) : List (Lease.Event Nat) :=
  calls.flatMap StorageCall.events

theorem blockEvents_append (calls more : List StorageCall) :
    blockEvents (calls ++ more) = blockEvents calls ++ blockEvents more := List.flatMap_append

/-- Each block is granted once, given back only while it is out, and given back once but for the one
that is handed over. -/
structure Balanced (calls : List StorageCall) (handed : Option Nat) : Prop where
  followed : ∀ p, (Lease.follow p (blockEvents calls)).isSome = true
  once : ∀ p, Lease.taken p (blockEvents calls) ≤ 1
  settled : ∀ p, Lease.taken p (blockEvents calls) =
    Lease.given p (blockEvents calls) + if handed = some p then 1 else 0

/-- `buf` alone is out, and no block is numbered from `asked` on. -/
structure BlockHeld (t : List (Lease.Event Nat)) (asked : Nat) (buf : Option Nat) : Prop where
  out : ∀ p, Lease.follow p t = some (if buf = some p then .loose else .free)
  fresh : ∀ p, Lease.taken p t ≤ if p < asked then 1 else 0

namespace BlockHeld

variable {t : List (Lease.Event Nat)} {asked p : Nat} {buf : Option Nat}

theorem nil : BlockHeld [] 0 none where
  out _ := rfl
  fresh _ := Nat.zero_le _

theorem next (h : BlockHeld t asked buf) : BlockHeld t (asked + 1) buf where
  out := h.out
  fresh p := by
    have hp := h.fresh p
    split at hp
    · rwa [if_pos (by omega)]
    · exact Nat.le_trans hp (Nat.zero_le _)

theorem taken_snoc (p : Nat) (t : List (Lease.Event Nat)) (e : Lease.Event Nat) :
    Lease.taken p (t ++ [e]) =
      Lease.taken p t + if e.1 = p ∧ (e.2 = .taken true ∨ e.2 = .taken false) then 1 else 0 := by
  rw [Lease.taken, Lease.taken, List.countP_append, List.countP_singleton]
  simp only [decide_eq_true_eq]

theorem take (h : BlockHeld t asked none) :
    BlockHeld (t ++ [(asked, .taken false)]) (asked + 1) (some asked) where
  out p := by
    by_cases hp : asked = p
    · subst hp
      rw [Lease.follow_snoc_same (h.out asked), if_neg nofun, if_pos rfl]
      rfl
    · rw [Lease.follow_snoc_other hp, h.out p, if_neg nofun,
        if_neg fun heq => hp (Option.some.inj heq)]
  fresh p := by
    have hfresh := h.fresh p
    rw [taken_snoc]
    by_cases hp : asked = p
    · subst hp
      rw [if_neg (Nat.lt_irrefl _)] at hfresh
      rw [if_pos ⟨rfl, .inr rfl⟩, if_pos (Nat.lt_succ_self _)]
      omega
    · rw [if_neg fun heq => hp heq.1]
      exact (next h).fresh p

theorem give (h : BlockHeld t asked (some p)) : BlockHeld (t ++ [(p, .given false)]) asked none where
  out q := by
    by_cases hq : p = q
    · subst hq
      rw [Lease.follow_snoc_same (h.out p), if_pos rfl, if_neg nofun]
      rfl
    · rw [Lease.follow_snoc_other hq, h.out q, if_neg fun heq => hq (Option.some.inj heq),
        if_neg nofun]
  fresh q := by
    rw [taken_snoc, if_neg fun heq => by cases heq.2 <;> contradiction]
    exact h.fresh q

theorem balanced {calls : List StorageCall} (h : BlockHeld t asked buf) (ht : blockEvents calls = t) :
    Balanced calls buf where
  followed p := by
    rw [ht, h.out p]
    rfl
  once p := by
    rw [ht]
    refine Nat.le_trans (h.fresh p) ?_
    split
    · exact Nat.le_refl _
    · exact Nat.zero_le _
  settled p := by
    rw [ht, Lease.taken_eq (h.out p)]
    by_cases hp : buf = some p
    · simp [hp]
    · simp [hp]

end BlockHeld

/-- The blocks of a result are settled. -/
structure BodyResult.Settled {σ : Type u} (out : BodyResult σ) : Prop where
  blocks : Balanced out.calls (out.content.map Prod.fst)
  handed : out.content.isSome = true ↔ out.rc = .ok

namespace BlockState

variable {σ : Type u} {s : BlockState σ}

/-- In every turn the block of the state alone is out, and none once storage has failed. -/
structure Holds (s : BlockState σ) : Prop where
  held : BlockHeld (blockEvents s.calls) s.asked s.buf
  nomem : s.nomem = true → s.buf = none

theorem Holds.fail (h : s.Holds) {rc : BodyRc} (hrc : rc ≠ .ok) (c : σ) : (s.fail rc c).Settled where
  blocks := by
    unfold BlockState.fail
    have hheld := h.held
    cases hbuf : s.buf with
    | none =>
      rw [hbuf] at hheld
      exact hheld.balanced rfl
    | some p =>
      rw [hbuf] at hheld
      have hgiven : BlockHeld (blockEvents (s.calls ++ [.release (some p)])) s.asked none := by
        rw [blockEvents_append]
        exact hheld.give
      exact hgiven.balanced rfl
  handed := by
    refine iff_of_false Bool.false_ne_true ?_
    show (if s.nomem then BodyRc.nomem else rc) ≠ .ok
    split
    · exact nofun
    · exact hrc

theorem Holds.finish (h : s.Holds) (ops : BodyOps) (c : σ) : (s.finish ops c).Settled := by
  obtain ⟨conn, buf, bytes, size, nomem, asked, calls⟩ := s
  have hheld : BlockHeld (blockEvents calls) asked buf := h.held
  unfold BlockState.finish
  cases nomem with
  | true =>
    obtain rfl : buf = none := h.nomem rfl
    exact ⟨hheld.balanced rfl, iff_of_false nofun nofun⟩
  | false =>
    cases buf with
    | some p => exact ⟨hheld.balanced rfl, iff_of_true rfl rfl⟩
    | none =>
      unfold BodyOps.granted
      dsimp only
      cases ops.grant asked with
      | true =>
        have htaken :
            BlockHeld (blockEvents (calls ++ [.alloc 1 (some asked)])) (asked + 1) (some asked) := by
          rw [blockEvents_append]
          exact hheld.take
        exact ⟨htaken.balanced rfl, iff_of_true rfl rfl⟩
      | false =>
        have hsame : BlockHeld (blockEvents (calls ++ [.alloc 1 none, .nomem])) asked none := by
          rw [blockEvents_append, show blockEvents [.alloc 1 none, .nomem] = [] from rfl,
            List.append_nil]
          exact hheld
        exact ⟨hsame.balanced rfl, iff_of_false nofun nofun⟩

theorem Holds.grow (h : s.Holds) (ops : BodyOps) (chunk : Nat) : (s.grow ops chunk).Holds := by
  obtain ⟨conn, buf, bytes, size, nomem, asked, calls⟩ := s
  have hheld : BlockHeld (blockEvents calls) asked buf := h.held
  unfold BlockState.grow BodyOps.granted
  cases nomem with
  | true => exact h
  | false =>
    cases ops.grant asked with
    | true =>
      refine ⟨?_, nofun⟩
      cases buf with
      | none =>
        show BlockHeld (blockEvents (calls ++ _)) (asked + 1) (some asked)
        rw [blockEvents_append]
        exact hheld.take
      | some p =>
        have hmoved : blockEvents (calls ++ [.resize p (size + chunk + 1) (some asked)]) =
            blockEvents calls ++ [(p, .given false)] ++ [(asked, .taken false)] := by
          rw [blockEvents_append, List.append_assoc]
          rfl
        show BlockHeld (blockEvents (calls ++ [.resize p (size + chunk + 1) (some asked)])) _ _
        rw [hmoved]
        exact hheld.give.take
    | false =>
      refine ⟨?_, fun _ => rfl⟩
      cases buf with
      | none =>
        have hsame : blockEvents (calls ++ [.alloc (size + chunk + 1) none, .nomem, .release none]) =
            blockEvents calls := by
          rw [blockEvents_append]
          exact List.append_nil _
        show BlockHeld (blockEvents (calls ++ [.alloc _ none, .nomem, .release none])) _ none
        rw [hsame]
        exact hheld.next
      | some p =>
        show BlockHeld (blockEvents (calls ++ _)) (asked + 1) none
        rw [blockEvents_append]
        exact hheld.give.next

end BlockState

/-- What a turn keeps, and what holds where the loop ends. -/
def TurnHolds {σ : Type u} : BlockState σ ⊕ BodyResult σ → Prop
  | .inl s' => s'.Holds
  | .inr out => out.Settled

namespace BodyRecv

variable {σ : Type u} (r : BodyRecv σ)

theorem chunkData_holds {s : BlockState σ} (h : s.Holds) (chunk : Nat) (c : σ) :
    TurnHolds (r.chunkData s chunk c) := by
  have hheld := h.held
  unfold chunkData
  cases hnomem : s.nomem with
  | true =>
    rw [h.nomem hnomem] at hheld
    have hsettled (d : σ) : BodyResult.Settled ⟨.nomem, none, d, s.calls, none⟩ :=
      ⟨hheld.balanced rfl, iff_of_false nofun nofun⟩
    rw [if_pos rfl]
    rcases r.drain.exec (chunk, c) with ⟨_ | _, d⟩
    · exact hsettled d
    · dsimp only
      split
      · exact ⟨h.held, fun _ => h.nomem hnomem⟩
      · exact hsettled _
  | false =>
    rw [if_neg Bool.false_ne_true]
    rcases r.readExact.exec (s.bytes, chunk, c) with ⟨_ | b, d⟩
    · exact h.fail (show BodyRc.bad ≠ .ok from nofun) d
    · have hread : BlockState.Holds { s with bytes := b, size := s.size + chunk, nomem := false } :=
        ⟨h.held, nofun⟩
      dsimp only
      split
      · exact ⟨h.held, nofun⟩
      · exact hread.fail (show BodyRc.bad ≠ .ok from nofun) _

theorem chunkStep_holds (ops : BodyOps) {s : BlockState σ} (h : s.Holds) :
    TurnHolds (r.chunkStep ops s) := by
  unfold chunkStep
  rcases r.sizeLine s.conn with ⟨line, _ | _ | _, c⟩
  · dsimp only
    split
    · exact h.fail (BodyRc.noConfusion ·) c
    · split
      · exact h.fail (BodyRc.noConfusion ·) c
      · split
        · exact h.finish ops _
        · exact r.chunkData_holds (h.grow ops _) _ c
  · exact h.fail (BodyRc.noConfusion ·) c
  · exact h.fail (BodyRc.noConfusion ·) c

theorem readChunked_settled (ops : BodyOps) (c : σ) : (r.readChunked ops c).Settled := by
  refine (r.readChunkedLoop ops).invariant (I := BlockState.Holds) ?_ ?_ ⟨BlockHeld.nil, nofun⟩
  · intro s s' h hstep
    have hturn := r.chunkStep_holds ops h
    rwa [show r.chunkStep ops s = _ from hstep] at hturn
  · intro s out h hstep
    have hturn := r.chunkStep_holds ops h
    rwa [show r.chunkStep ops s = _ from hstep] at hturn

theorem readLength_settled (ops : BodyOps) (contentLength : List Char) (c : σ) :
    (r.readLength ops contentLength c).Settled := by
  have htaken : BlockHeld [(0, .taken false)] 1 (some 0) := BlockHeld.nil.take
  unfold readLength BodyOps.granted
  rcases hlen : parseLength contentLength with rc | len
  · refine ⟨BlockHeld.nil.balanced rfl, iff_of_false nofun ?_⟩
    unfold parseLength at hlen
    simp only at hlen
    split at hlen
    · cases hlen
      exact nofun
    · split at hlen
      · cases hlen
        exact nofun
      · cases hlen
  · cases ops.grant 0 with
    | false => exact ⟨BlockHeld.nil.balanced rfl, iff_of_false nofun nofun⟩
    | true =>
      dsimp only [if_true]
      rcases r.readExact.exec ([], len, c) with ⟨_ | buf, d⟩
      · exact ⟨htaken.give.balanced rfl, iff_of_false nofun nofun⟩
      · exact ⟨htaken.balanced rfl, iff_of_true rfl rfl⟩

theorem readBody_settled (ops : BodyOps) (contentLength : Option (List Char)) (chunked : Bool)
    (c : σ) : (r.readBody ops contentLength chunked c).Settled := by
  unfold readBody
  split
  · exact r.readChunked_settled ops c
  · split
    · exact r.readLength_settled ops _ c
    · exact ⟨BlockHeld.nil.balanced rfl, iff_of_false nofun nofun⟩

/-! ## Bodies that arrive whole -/

/-- The bytes that come next, however they are asked for, and the connection behind them. -/
inductive Delivers : σ → List UInt8 → σ → Prop
  | done (c : σ) : Delivers c [] c
  | more {c d : σ} {bytes : List UInt8} (hne : bytes ≠ [])
      (got : ∀ n, 0 < n → n ≤ bytes.length → (r.recv c n).1 = bytes.take n)
      (rest : ∀ n, 0 < n → n ≤ bytes.length → Delivers (r.recv c n).2 (bytes.drop n) d) :
      Delivers c bytes d

variable {r} {c d : σ}

theorem Delivers.recv {a b : List UInt8} (h : r.Delivers c (a ++ b) d) (ha : a ≠ []) :
    (r.recv c a.length).1 = a ∧ r.Delivers (r.recv c a.length).2 b d := by
  have hpos := List.length_pos_of_ne_nil ha
  have hle : a.length ≤ (a ++ b).length := by
    rw [List.length_append]
    exact Nat.le_add_right _ _
  generalize hab : a ++ b = bytes at h
  cases h with
  | done => exact absurd (List.append_eq_nil_iff.mp hab).1 ha
  | more _ got rest =>
    subst hab
    have hgot := got a.length hpos hle
    have hrest := rest a.length hpos hle
    rw [List.take_left] at hgot
    rw [List.drop_left] at hrest
    exact ⟨hgot, hrest⟩

theorem Delivers.eq_of_nil (h : r.Delivers c [] d) : c = d := by
  cases h with
  | done => rfl
  | more hne => exact absurd rfl hne

theorem drain_delivers {a b : List UInt8} (h : r.Delivers c (a ++ b) d) :
    ∃ c', r.drain.exec (a.length, c) = (true, c') ∧ r.Delivers c' b d := by
  generalize hn : a.length = n
  induction n using Nat.strongRecOn generalizing a c with
  | _ n ih =>
    by_cases ha : a = []
    · subst ha
      subst hn
      exact ⟨c, r.drain.exec_done rfl, h⟩
    · -- one buffer, and what is left of the range
      have hpos := List.length_pos_of_ne_nil ha
      have hmax : 0 < DRAIN_BUF := by decide
      let k := min n DRAIN_BUF
      have hk : (a.take k).length = k := by
        rw [List.length_take]
        omega
      have hk0 : a.take k ≠ [] := List.ne_nil_of_length_pos (by omega)
      rw [← List.take_append_drop k a, List.append_assoc] at h
      obtain ⟨hgot, hrest⟩ := h.recv hk0
      rw [hk] at hgot hrest
      have hstep : r.drain.step (n, c) = .inl (n - k, (r.recv c k).2) := by
        have hn0 : n ≠ 0 := by omega
        simp only [drain, if_neg hn0]
        rw [show min n DRAIN_BUF = k from rfl, hgot, if_neg hk0, hk]
      rw [r.drain.exec_next hstep]
      have hlen : (a.drop k).length = n - k := by rw [List.length_drop, hn]
      exact ih (n - k) (by omega) hrest hlen

theorem readExact_delivers {a b : List UInt8} (h : r.Delivers c (a ++ b) d) (buf : List UInt8) :
    ∃ c', r.readExact.exec (buf, a.length, c) = (some (buf ++ a), c') ∧ r.Delivers c' b d := by
  by_cases ha : a = []
  · subst ha
    refine ⟨c, ?_, h⟩
    rw [List.append_nil]
    exact r.readExact.exec_done rfl
  · obtain ⟨hgot, hrest⟩ := h.recv ha
    have hlen : a.length ≠ 0 := mt List.length_eq_zero_iff.mp ha
    have hstep : r.readExact.step (buf, a.length, c) =
        .inl (buf ++ a, 0, (r.recv c a.length).2) := by
      simp only [readExact, if_neg hlen]
      rw [hgot, if_neg ha, Nat.sub_self]
    rw [r.readExact.exec_next hstep]
    exact ⟨_, r.readExact.exec_done rfl, hrest⟩

theorem sizeLineIn_delivers {room : Nat} {line rest : List UInt8}
    (h : r.Delivers c (line ++ Chunked.CR :: Chunked.LF :: rest) d) (hroom : line.length < room)
    (hcr : Chunked.CR ∉ line) :
    ∃ c', r.sizeLineIn room c = (line, .cr, c') ∧ r.Delivers c' rest d := by
  induction line generalizing room c with
  | nil =>
    obtain ⟨room, rfl⟩ := Nat.exists_eq_add_one_of_ne_zero (Nat.ne_of_gt hroom)
    obtain ⟨hgot, hlf⟩ := h.recv (a := [Chunked.CR]) (List.cons_ne_nil _ _)
    obtain ⟨-, hrest⟩ := hlf.recv (a := [Chunked.LF]) (List.cons_ne_nil _ _)
    refine ⟨_, ?_, hrest⟩
    rw [sizeLineIn]
    rcases hrecv : r.recv c 1 with ⟨got, c'⟩
    have hcr : got = [Chunked.CR] := by
      rw [List.length_singleton, hrecv] at hgot
      exact hgot
    subst hcr
    simp only [if_true, List.length_singleton]
  | cons b line ih =>
    obtain ⟨room, rfl⟩ := Nat.exists_eq_add_one_of_ne_zero (Nat.ne_of_gt (Nat.zero_lt_of_lt hroom))
    obtain ⟨hgot, hline⟩ := h.recv (a := [b]) (List.cons_ne_nil _ _)
    obtain ⟨hb, hnocr⟩ : Chunked.CR ≠ b ∧ Chunked.CR ∉ line := by
      rwa [List.mem_cons, not_or] at hcr
    rcases hrecv : r.recv c 1 with ⟨got, c'⟩
    rw [List.length_singleton, hrecv] at hgot hline
    obtain rfl : got = [b] := hgot
    obtain ⟨c'', hrest, hdel⟩ := ih hline (Nat.lt_of_succ_lt_succ hroom) hnocr
    refine ⟨c'', ?_, hdel⟩
    rw [sizeLineIn, hrecv]
    simp only [if_neg (Ne.symm hb), hrest]

end BodyRecv

/-- How far a chunked body has been read: the bytes in the block, the requests for storage, and whether
one has been refused. -/
structure BodyRoom where
  size : Nat
  asked : Nat
  refused : Bool

/-- Behind a chunk. Once storage has been refused nothing is read into the block. -/
def BodyRoom.next (ops : BodyOps) (room : BodyRoom) (chunk : Nat) : BodyRoom :=
  if room.refused then room
  else if ops.grant room.asked then ⟨room.size + chunk, room.asked + 1, false⟩
  else ⟨room.size, room.asked + 1, true⟩

/-- The size lines that are read, with the bytes read into the block so far. -/
def Within (room : BodyRoom) (line : List UInt8) : Prop :=
  Fits line ∧ ∀ n, Chunked.SizeLine line n → n + room.size < REQBODY_MAX

def BlockState.room {σ : Type u} (s : BlockState σ) : BodyRoom := ⟨s.size, s.asked, s.nomem⟩

namespace BodyRecv

variable {σ : Type u} {r : BodyRecv σ} {c d : σ}

theorem finish_conn (ops : BodyOps) (s : BlockState σ) (c : σ) : (s.finish ops c).conn = c := by
  unfold BlockState.finish
  split
  · rfl
  · split
    · rfl
    · split <;> rfl

/-- A chunk that storage has been asked for comes whole, with its CRLF. -/
theorem chunkData_delivers (ops : BodyOps) {s : BlockState σ} {data rest : List UInt8}
    (h : r.Delivers c (data ++ Chunked.CR :: Chunked.LF :: rest) d) :
    ∃ s', r.chunkData (s.grow ops data.length) data.length c = .inl s' ∧
      r.Delivers s'.conn rest d ∧ s'.room = s.room.next ops data.length := by
  have hcrlf {c' : σ} (hc' : r.Delivers c' (Chunked.CR :: Chunked.LF :: rest) d) :
      (r.recv c' 2).1.length = 2 ∧ r.Delivers (r.recv c' 2).2 rest d := by
    obtain ⟨hgot, hrest⟩ := hc'.recv (a := [Chunked.CR, Chunked.LF]) (List.cons_ne_nil _ _)
    exact ⟨congrArg List.length hgot, hrest⟩
  -- thrown away, or read into the block behind what is there
  have hdrained (t : BlockState σ) (ht : t.nomem = true) : ∃ s',
      r.chunkData t data.length c = .inl s' ∧ r.Delivers s'.conn rest d ∧ s'.room = t.room := by
    obtain ⟨c', hdrain, hc'⟩ := drain_delivers h
    unfold chunkData
    rw [if_pos ht, hdrain]
    exact ⟨_, if_pos (hcrlf hc').1, (hcrlf hc').2, rfl⟩
  have hread (t : BlockState σ) (ht : t.nomem = false) : ∃ s',
      r.chunkData t data.length c = .inl s' ∧ r.Delivers s'.conn rest d ∧
        s'.room = ⟨t.size + data.length, t.asked, false⟩ := by
    obtain ⟨c', hread, hc'⟩ := readExact_delivers h t.bytes
    unfold chunkData
    rw [if_neg (by rw [ht]; exact Bool.false_ne_true), hread]
    refine ⟨_, if_pos (hcrlf hc').1, (hcrlf hc').2, ?_⟩
    rw [← ht]
    rfl
  obtain ⟨conn, buf, bytes, size, nomem, asked, calls⟩ := s
  unfold BlockState.grow BodyRoom.next BodyOps.granted BlockState.room
  cases nomem with
  | true => exact hdrained _ rfl
  | false =>
    cases ops.grant asked with
    | true => exact hread _ rfl
    | false => exact hdrained _ rfl

/-- A whole chunk whose size line is read. -/
theorem chunkStep_delivers (ops : BodyOps) {s : BlockState σ} {line data rest : List UInt8}
    (h : r.Delivers s.conn (line ++ Chunked.CR :: Chunked.LF ::
      (data ++ Chunked.CR :: Chunked.LF :: rest)) d)
    (hl : Chunked.SizeLine line data.length) (hp : Within s.room line) (hd : data ≠ []) :
    ∃ s', r.chunkStep ops s = .inl s' ∧ r.Delivers s'.conn rest d ∧
      s'.room = s.room.next ops data.length := by
  obtain ⟨c, hline, hdata⟩ := sizeLineIn_delivers h (Nat.lt_succ_of_le hp.1) hl.noCR
  have hvalue : sizeValue ops.cp line = data.length := sizeValue_short ops.cp hl hp.1
  have hsize : data.length + s.size < REQBODY_MAX := hp.2 _ hl
  unfold chunkStep
  rw [show r.sizeLine s.conn = _ from hline]
  simp only [hvalue, (strtoul_sizeText ops.cp hl).2]
  rw [if_neg Bool.false_ne_true, if_neg (by omega),
    if_neg (mt List.length_eq_zero_iff.mp hd)]
  exact chunkData_delivers ops hdata

/-- A chunked body that arrives whole is taken from the connection, whatever storage is refused. -/
theorem readChunked_delivers {ops : BodyOps} {room : BodyRoom} {body b rest : List UInt8}
    (h : Chunked.CodedFrom Within (BodyRoom.next ops) room body b rest)
    (hrest : rest = [Chunked.CR, Chunked.LF]) {s : BlockState σ} (hs : r.Delivers s.conn body d)
    (hroom : s.room = room) : ((r.readChunkedLoop ops).exec s).conn = d := by
  induction h generalizing s with
  | @last room line rest hp hl =>
    subst hrest
    have hlt := hp.2 0 hl
    rw [← hroom, show s.room.size = s.size from rfl] at hlt
    obtain ⟨c, hline, hc⟩ := sizeLineIn_delivers hs (Nat.lt_succ_of_le hp.1) hl.noCR
    obtain ⟨-, hend⟩ :=
      hc.recv (a := [Chunked.CR, Chunked.LF]) (b := []) (List.cons_ne_nil _ _)
    have hstep : r.chunkStep ops s = .inr (s.finish ops (r.recv c 2).2) := by
      unfold chunkStep
      rw [show r.sizeLine s.conn = _ from hline]
      simp only [sizeValue_short ops.cp hl hp.1, (strtoul_sizeText ops.cp hl).2]
      rw [if_neg Bool.false_ne_true, if_neg (by omega), if_pos trivial]
    rw [(r.readChunkedLoop ops).exec_done hstep, ← hend.eq_of_nil]
    exact finish_conn ops s _
  | @chunk room line data body b rest hp hl hd htail ih =>
    subst hroom
    obtain ⟨s', hstep, hs', hroom'⟩ := chunkStep_delivers ops hs hl hp hd
    rw [(r.readChunkedLoop ops).exec_next hstep]
    exact ih hrest hs' hroom'

end BodyRecv

/-- What a client sends for one body: as many bytes as its Content-Length says, or chunks with size
lines that meet `P` where they come, the last of them without a trailer. -/
def WellFormed (P : BodyRoom → List UInt8 → Prop) (ops : BodyOps)
    (contentLength : Option (List Char)) (chunked : Bool) (body : List UInt8) : Prop :=
  if chunked then
    ∃ b, Chunked.CodedFrom P (BodyRoom.next ops) ⟨0, 0, false⟩ body b [Chunked.CR, Chunked.LF]
  else ∃ cl, contentLength = some cl ∧ parseLength cl = .ok body.length

/-- **The blocks of a request body.** However `recv` behaves and whatever storage is refused, each block
is given back once or is the one handed over, which there is where the code is `REQBODY_OK`; and for a
body that arrives whole, each size line of it one that is read with the bytes that are then in the
block, `REQBODY_NOMEM` has taken all of it. -/
theorem readBody_blocks {σ : Type u} (r : BodyRecv σ) (ops : BodyOps)
    (contentLength : Option (List Char)) (chunked : Bool) (c : σ) :
    let out := r.readBody ops contentLength chunked c
    Balanced out.calls (out.content.map Prod.fst) ∧ (out.content.isSome = true ↔ out.rc = .ok) ∧
      ∀ body d, WellFormed Within ops contentLength chunked body → r.Delivers c body d →
        out.rc = .nomem → out.conn = d := by
  intro out
  obtain ⟨hblocks, hhanded⟩ := r.readBody_settled ops contentLength chunked c
  refine ⟨hblocks, hhanded, fun body d hbody hdel hrc => ?_⟩
  cases chunked with
  | true =>
    obtain ⟨b, hcoded⟩ := hbody
    exact BodyRecv.readChunked_delivers hcoded rfl hdel rfl
  | false =>
    obtain ⟨cl, rfl, hlen⟩ := hbody
    have hout : out = r.readLength ops cl c := rfl
    rw [← List.append_nil body] at hdel
    unfold BodyRecv.readLength at hout
    rw [hlen] at hout
    dsimp only at hout
    cases hg : ops.granted 0 with
    | none =>
      obtain ⟨c', hdrain, hc'⟩ := BodyRecv.drain_delivers hdel
      rw [hg] at hout
      rw [hout]
      exact (congrArg Prod.snd hdrain).trans hc'.eq_of_nil
    | some p =>
      obtain ⟨c', hread, -⟩ := BodyRecv.readExact_delivers hdel []
      rw [hg] at hout
      dsimp only at hout
      rw [hread] at hout
      rw [hout] at hrc
      cases hrc

theorem connRecv_delivers (body rest : List UInt8) (bulk : List Nat) :
    connRecv.Delivers ⟨body ++ rest, bulk⟩ body ⟨rest, bulk⟩ := by
  generalize hn : body.length = n
  induction n using Nat.strongRecOn generalizing body with
  | _ n ih =>
    by_cases hbody : body = []
    · subst hbody
      exact .done _
    · refine .more hbody (fun k _ hk => ?_) fun k hpos hk => ?_
      · exact List.take_append_of_le_length hk
      · have hdrop : (connRecv.recv ⟨body ++ rest, bulk⟩ k).2 = ⟨body.drop k ++ rest, bulk⟩ :=
          congrArg (Conn.mk · bulk) (List.drop_append_of_le_length hk)
        rw [hdrop]
        refine ih (n - k) (by omega) _ ?_
        rw [List.length_drop, hn]

/-- Two chunks of one byte, the block of the first not growing for the second. -/
theorem readBody_blocks_twoChunks :
    let body := [0x31] ++ Chunked.CR :: Chunked.LF :: ([0x41] ++ Chunked.CR :: Chunked.LF ::
      ([0x31] ++ Chunked.CR :: Chunked.LF :: ([0x42] ++ Chunked.CR :: Chunked.LF ::
        ([0x30] ++ Chunked.CR :: Chunked.LF :: [Chunked.CR, Chunked.LF]))))
    let out := connRecv.readBody ⟨.cp037, fun n => n == 0⟩ none true ⟨body, []⟩
    Balanced out.calls none ∧ out.conn = ⟨[], []⟩ := by
  intro body out
  obtain ⟨hblocks, -, hwhole⟩ :=
    readBody_blocks connRecv ⟨.cp037, fun n => n == 0⟩ none true ⟨body, []⟩
  have hone (room : BodyRoom) (hroom : room.size ≤ 1) : Within room [0x31] :=
    ⟨Nat.le_of_ble_eq_true rfl, fun n hn => by
      rw [hn.value_unique Chunked.sizeLine_one, REQBODY_MAX]
      omega⟩
  have hzero (room : BodyRoom) (hroom : room.size ≤ 1) : Within room [0x30] :=
    ⟨Nat.le_of_ble_eq_true rfl, fun n hn => by
      rw [hn.value_unique Chunked.sizeLine_zero, REQBODY_MAX]
      omega⟩
  have hbody : WellFormed Within ⟨.cp037, fun n => n == 0⟩ none true body := by
    refine ⟨[0x41] ++ ([0x42] ++ []), ?_⟩
    refine .chunk (hone _ (by decide)) Chunked.sizeLine_one (List.cons_ne_nil _ _) ?_
    refine .chunk (hone _ (by decide)) Chunked.sizeLine_one (List.cons_ne_nil _ _) ?_
    exact .last (hzero _ (by decide)) Chunked.sizeLine_zero
  have hdel := connRecv_delivers body [] []
  rw [List.append_nil] at hdel
  exact ⟨hblocks, hwhole body ⟨[], []⟩ hbody hdel (by decide +kernel)⟩

/-- The size line `1;name=val`. -/
def extendedLine : List UInt8 := [0x31, 0x3B, 0x6E, 0x61, 0x6D, 0x65, 0x3D, 0x76, 0x61, 0x6C]

/-- A chunk of one byte, one with an extension, and the last. -/
def extendedBody : List UInt8 :=
  [0x31] ++ Chunked.CR :: Chunked.LF :: ([0x41] ++ Chunked.CR :: Chunked.LF ::
    (extendedLine ++ Chunked.CR :: Chunked.LF :: ([0x42] ++ Chunked.CR :: Chunked.LF ::
      ([0x30] ++ Chunked.CR :: Chunked.LF :: [Chunked.CR, Chunked.LF]))))

theorem extendedBody_wellFormed (ops : BodyOps) :
    WellFormed (fun _ _ => True) ops none true extendedBody := by
  have hline : Chunked.SizeLine extendedLine 1 :=
    ⟨⟨[0x31], extendedLine.tail, rfl, nofun, by simp [Chunked.hexVal], rfl, .inr ⟨_, rfl⟩⟩,
      by decide, by decide⟩
  refine ⟨[0x41] ++ ([0x42] ++ []), ?_⟩
  refine .chunk trivial Chunked.sizeLine_one (List.cons_ne_nil _ _) ?_
  refine .chunk trivial hline (List.cons_ne_nil _ _) ?_
  exact .last trivial Chunked.sizeLine_zero

/-- The size line with the extension is not read to its end, and what is behind it stays. -/
theorem readBody_extended :
    let out := connRecv.readBody ⟨.cp037, fun _ => false⟩ none true ⟨extendedBody, []⟩
    WellFormed (fun _ _ => True) ⟨.cp037, fun _ => false⟩ none true extendedBody ∧
      connRecv.Delivers ⟨extendedBody, []⟩ extendedBody ⟨[], []⟩ ∧
      out.rc = .nomem ∧ out.conn ≠ ⟨[], []⟩ := by
  refine ⟨extendedBody_wellFormed _, ?_, by decide +kernel, by decide +kernel⟩
  have hdel := connRecv_delivers extendedBody [] []
  rwa [List.append_nil] at hdel

end Mvsmf
