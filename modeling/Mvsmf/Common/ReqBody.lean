import Mvsmf.Common.Receive

/-!
# Reading a request body into one buffer

`reqbody.c`: a body with a Content-Length is allocated once at its size, a chunked one grows by
each chunk, and once storage has failed the rest is still read and thrown away. The services of
`BODY_OPS` are the connection, a code page for the size line and `grant`, which says whether the
n-th request for storage is met; what was asked of the allocator is kept in order in `heap`.
-/

namespace Mvsmf

inductive BodyRc
  | ok
  | bad
  | nomem
  | tooLarge
  deriving DecidableEq, Repr

/-- The smallest length answered `tooLarge`: 16 MB. -/
def REQBODY_MAX : Nat := 0x01000000

inductive HeapOp
  | alloc (size : Nat) (met : Bool)
  | resize (size : Nat) (met : Bool)
  | release (block : Bool)
  | nomem
  deriving DecidableEq, Repr

/-- What `read_body` leaves: its return code, `*content`, the connection, and what it stores into the
block behind what it received, with its place. -/
structure BodyOut where
  rc : BodyRc
  content : Option (List UInt8)
  conn : Conn
  heap : List HeapOp
  stored : Option (Nat × UInt8)
  deriving DecidableEq, Repr

structure BodyOps where
  cp : HttpCp
  grant : Nat → Bool

/-! ## The Content-Length -/

def isDecimal (c : Char) : Bool := CLib.isDigit 10 c

/-- Accumulation stops at `REQBODY_MAX`. -/
def lengthStep (v : Nat) (c : Char) : Nat :=
  if v < REQBODY_MAX then v * 10 + (CLib.digitVal c).getD 0 else v

def parseLength (s : List Char) : Except BodyRc Nat :=
  let s := s.dropWhile (· == ' ')
  let ds := s.takeWhile isDecimal
  let v := ds.foldl lengthStep 0
  let s := (s.dropWhile isDecimal).dropWhile (· == ' ')
  if ds = [] ∨ s ≠ [] then .error .bad
  else if v ≥ REQBODY_MAX then .error .tooLarge
  else .ok v

/-! ## Draining and reading -/

def DRAIN_BUF : Nat := 256

/-- Read and discard: whether all of it came. -/
def drain : Loop (Nat × Conn) (Bool × Conn) where
  step := fun (n, c) =>
    if n = 0 then .inr (true, c)
    else
      let (got, c') := c.receiveRawData (min n DRAIN_BUF)
      if got = [] then .inr (false, c') else .inl (n - got.length, c')
  measure := fun (n, _) => n
  lowers := by
    rintro ⟨n, c⟩ ⟨n', c'⟩ h
    simp only at h ⊢
    split at h
    · cases h
    · next h0 =>
      split at h
      · cases h
      · next hg =>
        have := List.length_pos_of_ne_nil hg
        cases h
        omega

/-- Read exactly `n` bytes behind those in hand. -/
def readExact : Loop (List UInt8 × Nat × Conn) (Option (List UInt8) × Conn) where
  step := fun (buf, n, c) =>
    if n = 0 then .inr (some buf, c)
    else
      let (got, c') := c.receiveRawData n
      if got = [] then .inr (none, c') else .inl (buf ++ got, n - got.length, c')
  measure := fun (_, n, _) => n
  lowers := by
    rintro ⟨b, n, c⟩ ⟨b', n', c'⟩ h
    simp only at h ⊢
    split at h
    · cases h
    · next h0 =>
      split at h
      · cases h
      · next hg =>
        have := List.length_pos_of_ne_nil hg
        cases h
        omega

theorem readExact_exec (buf : List UInt8) (n : Nat) (c : Conn) :
    readExact.exec (buf, n, c) =
      if n ≤ c.unread.length then (some (buf ++ c.unread.take n), (c.receiveRawData n).2)
      else (none, { c with unread := [] }) := by
  by_cases h0 : n = 0
  · subst h0
    rw [readExact.exec_done (r := (some buf, c)) rfl]
    simp [Conn.receiveRawData]
  · by_cases hu : c.unread = []
    · have hstep : readExact.step (buf, n, c) = .inr (none, (c.receiveRawData n).2) := by
        simp [readExact, h0, hu, Conn.receiveRawData]
      rw [readExact.exec_done hstep, if_neg (by simp [hu, h0])]
      simp [Conn.receiveRawData, hu]
    · have hstep : readExact.step (buf, n, c) = .inl (buf ++ c.unread.take n,
          n - (c.unread.take n).length, (c.receiveRawData n).2) := by
        simp [readExact, h0, hu, Conn.receiveRawData]
      rw [readExact.exec_next hstep]
      by_cases hle : n ≤ c.unread.length
      · have hd : readExact.step (buf ++ c.unread.take n, n - (c.unread.take n).length,
            (c.receiveRawData n).2) = .inr (some (buf ++ c.unread.take n),
              (c.receiveRawData n).2) := by
          simp [readExact, Nat.min_eq_left hle]
        rw [readExact.exec_done hd, if_pos hle]
      · have hd : readExact.step (buf ++ c.unread.take n, n - (c.unread.take n).length,
            (c.receiveRawData n).2) = .inr (none, { c with unread := [] }) := by
          have : c.unread.drop n = [] := List.drop_eq_nil_of_le (by omega)
          simp [readExact, Conn.receiveRawData, this]
          omega
        rw [readExact.exec_done hd, if_neg hle]

theorem drain_exec (n : Nat) (c : Conn) :
    drain.exec (n, c) = (decide (n ≤ c.unread.length), (c.receiveRawData n).2) := by
  refine drain.rule (P := fun s r => r = (decide (s.1 ≤ s.2.unread.length),
    (s.2.receiveRawData s.1).2)) ?_ ?_ (n, c)
  · rintro ⟨n, c⟩ r h
    simp only [drain] at h
    split at h
    · next h0 => subst h0; cases h; simp [Conn.receiveRawData]
    · next h0 =>
      split at h
      · next hg =>
        cases h
        have hu : c.unread = [] := by
          rw [Conn.receiveRawData_fst, List.take_eq_nil_iff] at hg
          exact hg.resolve_left (by unfold DRAIN_BUF; omega)
        simp [Conn.receiveRawData, hu, h0]
      · cases h
  · rintro ⟨n, c⟩ s' h ih
    simp only [drain] at h
    split at h
    · cases h
    · next h0 =>
      split at h
      · cases h
      · cases h
        rw [ih]
        simp only [Conn.receiveRawData, List.length_take, List.length_drop, List.drop_drop]
        have hk : min n DRAIN_BUF ≤ n := Nat.min_le_left _ _
        generalize min n DRAIN_BUF = k at hk
        by_cases hl : k ≤ c.unread.length
        · rw [Nat.min_eq_left hl]
          congr 2
          · exact propext ⟨fun h => by omega, fun h => by omega⟩
          · rw [show k + (n - k) = n by omega]
        · rw [Nat.min_eq_right (by omega), List.drop_eq_nil_of_le (by omega),
            List.drop_eq_nil_of_le (by omega)]
          congr 2
          exact propext ⟨fun h => by omega, fun h => by omega⟩

def readLength (ops : BodyOps) (contentLength : List Char) (c : Conn) : BodyOut :=
  match parseLength contentLength with
  | .error rc => ⟨rc, none, c, [], none⟩
  | .ok len =>
    if ops.grant 0 = false then
      ⟨.nomem, none, (drain.exec (len, c)).2, [.alloc (len + 1) false, .nomem], none⟩
    else
      match readExact.exec ([], len, c) with
      | (none, c') => ⟨.bad, none, c', [.alloc (len + 1) true, .release true], none⟩
      | (some buf, c') => ⟨.ok, some buf, c', [.alloc (len + 1) true], some (len, 0)⟩

/-! ## The chunks -/

/-- `buf` is the block and what is in it, `size` the bytes read while it was there, `asked` the
number of requests for storage so far. -/
structure BodyState where
  conn : Conn
  buf : Option (List UInt8)
  size : Nat
  nomem : Bool
  asked : Nat
  heap : List HeapOp
  deriving DecidableEq, Repr

namespace BodyState

def start (c : Conn) : BodyState := ⟨c, none, 0, false, 0, []⟩

/-- `fail:`. -/
def fail (s : BodyState) (rc : BodyRc) (c : Conn) : BodyOut :=
  ⟨if s.nomem then .nomem else rc, none, c,
    if s.buf.isSome then s.heap ++ [.release true] else s.heap, none⟩

/-- Room for `chunk` more bytes; when it is refused the block is given up. -/
def grow (ops : BodyOps) (s : BodyState) (chunk : Nat) : BodyState :=
  if s.nomem then s
  else
    let met := ops.grant s.asked
    let op := if s.buf.isSome then HeapOp.resize (s.size + chunk + 1) met
      else HeapOp.alloc (s.size + chunk + 1) met
    if met then
      { s with buf := some (s.buf.getD []), asked := s.asked + 1, heap := s.heap ++ [op] }
    else
      { s with buf := none, nomem := true, asked := s.asked + 1,
               heap := s.heap ++ [op, .nomem, .release s.buf.isSome] }

/-- Behind the last chunk: the block, or one byte for an empty body. -/
def finish (ops : BodyOps) (s : BodyState) (c : Conn) : BodyOut :=
  if s.nomem then ⟨.nomem, none, c, s.heap, none⟩
  else
    match s.buf with
    | some b => ⟨.ok, some b, c, s.heap, some (s.size, 0)⟩
    | none =>
      if ops.grant s.asked then ⟨.ok, some [], c, s.heap ++ [.alloc 1 true], some (s.size, 0)⟩
      else ⟨.nomem, none, c, s.heap ++ [.alloc 1 false, .nomem], none⟩

/-- The chunk's data, into the block or thrown away, and the CRLF behind it. -/
def chunkData (s : BodyState) (chunk : Nat) (c : Conn) : BodyState ⊕ BodyOut :=
  if s.nomem then
    match drain.exec (chunk, c) with
    | (false, c') => .inr ⟨.nomem, none, c', s.heap, none⟩
    | (true, c') =>
      let (crlf, c'') := c'.receiveRawData 2
      if crlf.length = 2 then .inl { s with conn := c'' }
      else .inr ⟨.nomem, none, c'', s.heap, none⟩
  else
    match readExact.exec (s.buf.getD [], chunk, c) with
    | (none, c') => .inr (s.fail .bad c')
    | (some b, c') =>
      let s := { s with buf := some b, size := s.size + chunk }
      let (crlf, c'') := c'.receiveRawData 2
      if crlf.length = 2 then .inl { s with conn := c'' } else .inr (s.fail .bad c'')

end BodyState

def chunkStep (ops : BodyOps) (s : BodyState) : BodyState ⊕ BodyOut :=
  match sizeLine s.conn with
  | (line, .cr, c) =>
    let chunk := sizeValue ops.cp line
    if noDigits ops.cp line then .inr (s.fail .bad c)
    else if chunk ≥ REQBODY_MAX - s.size then .inr (s.fail .tooLarge c)
    else if chunk = 0 then .inr (s.finish ops (c.receiveRawData 2).2)
    else (s.grow ops chunk).chunkData chunk c
  | (_, _, c) => .inr (s.fail .bad c)

/-- A size line that ends in its CR takes at least that CR. -/
theorem sizeLine_cr {c c' : Conn} {line : List UInt8} (h : sizeLine c = (line, .cr, c')) :
    line.length ≤ 8 ∧ Chunked.CR ∉ line ∧
      ∃ t, c.unread = line ++ Chunked.CR :: t ∧ c'.unread = t.drop 1 := by
  have := sizeLineIn_spec (CHUNK_LINE_MAX - 1) c
  rw [show sizeLineIn (CHUNK_LINE_MAX - 1) c = _ from h] at this
  exact ⟨Nat.lt_succ_iff.mp this.1, this.2⟩

theorem sizeLine_cr_length {c c' : Conn} {line : List UInt8} (h : sizeLine c = (line, .cr, c')) :
    c'.unread.length < c.unread.length := by
  obtain ⟨-, -, t, hc, hc'⟩ := sizeLine_cr h
  simp only [hc, hc', List.length_append, List.length_cons, List.length_drop]
  omega

theorem BodyState.chunkData_length {s s' : BodyState} {chunk : Nat} {c : Conn}
    (h : s.chunkData chunk c = .inl s') : s'.conn.unread.length ≤ c.unread.length := by
  unfold chunkData at h
  split at h
  · rw [drain_exec] at h
    split at h
    · cases h
    · next c' hd =>
      simp only [Prod.mk.injEq] at hd
      simp only at h
      split at h
      · cases h
        simp only [← hd.2, Conn.receiveRawData, List.length_drop]
        omega
      · cases h
  · rw [readExact_exec] at h
    split at h
    · cases h
    · next b c' hr =>
      split at hr
      · simp only [Prod.mk.injEq, Option.some.injEq] at hr
        simp only at h
        split at h
        · cases h
          simp only [← hr.2, Conn.receiveRawData, List.length_drop]
          omega
        · cases h
      · cases hr

/-- The loop of `read_chunked`. -/
def readChunkedLoop (ops : BodyOps) : Loop BodyState BodyOut where
  step := chunkStep ops
  measure := fun s => s.conn.unread.length
  lowers := by
    intro s s' h
    unfold chunkStep at h
    split at h
    · next line c hl =>
      have := sizeLine_cr_length hl
      simp only at h
      split at h
      · cases h
      · split at h
        · cases h
        · split at h
          · cases h
          · have := BodyState.chunkData_length h
            omega
    · cases h

def readChunked (ops : BodyOps) (c : Conn) : BodyOut := (readChunkedLoop ops).exec (.start c)

def readBody (ops : BodyOps) (contentLength : Option (List Char)) (chunked : Bool) (c : Conn) :
    BodyOut :=
  if chunked then readChunked ops c
  else
    match contentLength with
    | some cl => readLength ops cl c
    | none => ⟨.bad, none, c, [], none⟩

end Mvsmf
