import Mvsmf.Common.CodePage
import Mvsmf.Lib.Loop
import Mvsmf.Lib.Strtoul
import Mvsmf.Lib.ChunkedCoding

/-!
# Receiving from the client

The socket as the handlers see it: the bytes the client still sends before the connection ends, and
how the network cuts them for a bulk `recv()`. `receiveRawData` reads byte by byte and comes back
short only when the connection has ended, `receiveRawSome` is one bulk `recv()`.

`sizeLine` is the loop with which all four readers of a chunked body collect a chunk-size line: up
to nine characters, ending at a CR, whose LF is read and not looked at. They differ in what they do
with a line that has no CR in its nine characters and with a connection that ends in it.
-/

namespace Mvsmf

/-- What is left of the connection. `bulk` says how many bytes the next bulk `recv()`s find; when
it runs out a bulk `recv()` gets all it asks for. -/
structure Conn where
  unread : List UInt8
  bulk : List Nat
  deriving DecidableEq, Repr

namespace Conn

/-- At most `len` bytes, fewer only when the connection has ended. -/
def receiveRawData (c : Conn) (len : Nat) : List UInt8 × Conn :=
  (c.unread.take len, { c with unread := c.unread.drop len })

/-- One `recv()` of up to `len` bytes; nothing only when the connection has ended. -/
def receiveRawSome (c : Conn) (len : Nat) : List UInt8 × Conn :=
  let n := min len (max 1 (c.bulk.headD len))
  (c.unread.take n, { unread := c.unread.drop n, bulk := c.bulk.tail })

@[simp] theorem receiveRawData_fst (c : Conn) (len : Nat) :
    (c.receiveRawData len).1 = c.unread.take len := rfl

@[simp] theorem receiveRawData_unread (c : Conn) (len : Nat) :
    (c.receiveRawData len).2.unread = c.unread.drop len := rfl

/-- A bulk `recv()` hands over the next bytes, at least one when one is asked for and there. -/
theorem receiveRawSome_spec (c : Conn) (len : Nat) :
    ∃ n, n ≤ len ∧ n ≤ c.unread.length ∧ (0 < len → c.unread ≠ [] → 0 < n) ∧
      (c.receiveRawSome len).1 = c.unread.take n ∧
      (c.receiveRawSome len).2.unread = c.unread.drop n := by
  refine ⟨min (min len (max 1 (c.bulk.headD len))) c.unread.length, by omega, by omega, ?_, ?_, ?_⟩
  · intro hl hu
    have := List.length_pos_of_ne_nil hu
    omega
  · rw [← List.take_eq_take_min]
    rfl
  · rw [← List.drop_eq_drop_min]
    rfl

end Conn

/-! ## Chunk-size lines -/

/-- How the collecting of a size line stopped. -/
inductive LineEnd
  | cr
  | full
  | closed
  deriving DecidableEq, Repr

/-- Room for nine characters and the NUL in each reader's line buffer. -/
def CHUNK_LINE_MAX : Nat := 10

/-- The next size line: its characters, how it ended, and what is left. -/
def sizeLineIn : Nat → Conn → List UInt8 × LineEnd × Conn
  | 0, c => ([], .full, c)
  | room + 1, c =>
    match c.receiveRawData 1 with
    | (b :: _, c') =>
      if b = Chunked.CR then ([], .cr, (c'.receiveRawData 1).2)
      else
        let (line, e, c'') := sizeLineIn room c'
        (b :: line, e, c'')
    | ([], c') => ([], .closed, c')

def sizeLine (c : Conn) : List UInt8 × LineEnd × Conn := sizeLineIn (CHUNK_LINE_MAX - 1) c

/-- The line as the native characters `strtoul` reads. -/
def sizeText (cp : HttpCp) (line : List UInt8) : List Char := line.map cp.native

def sizeValue (cp : HttpCp) (line : List UInt8) : Nat := (CLib.strtoul 16 (sizeText cp line)).1

/-- `end == line`: `strtoul` found no digit. -/
def noDigits (cp : HttpCp) (line : List UInt8) : Bool :=
  (CLib.strtoul 16 (sizeText cp line)).2 == sizeText cp line

/-- What stands in the stream where a size line was read. -/
theorem sizeLineIn_spec : ∀ (room : Nat) (c : Conn),
    match sizeLineIn room c with
    | (line, .cr, c') => line.length < room ∧ Chunked.CR ∉ line ∧
        ∃ t, c.unread = line ++ Chunked.CR :: t ∧ c'.unread = t.drop 1
    | (line, .full, c') => line.length = room ∧ Chunked.CR ∉ line ∧ c.unread = line ++ c'.unread
    | (line, .closed, c') => line.length < room ∧ Chunked.CR ∉ line ∧ c.unread = line ∧
        c'.unread = [] := by
  intro room
  induction room with
  | zero => intro c; simp [sizeLineIn]
  | succ room ih =>
    intro c
    unfold sizeLineIn
    rcases c with ⟨_ | ⟨b, s⟩, bulk⟩
    · simp [Conn.receiveRawData]
    · simp only [Conn.receiveRawData, List.take_succ_cons, List.take_zero, List.drop_succ_cons,
        List.drop_zero]
      by_cases hb : b = Chunked.CR
      · simp [hb]
      · have := ih ⟨s, bulk⟩
        rw [if_neg hb]
        generalize sizeLineIn room ⟨s, bulk⟩ = r at this
        obtain ⟨line, e, c'⟩ := r
        cases e with
        | cr =>
          obtain ⟨h1, h2, t, h3, h4⟩ := this
          exact ⟨by simpa using h1, by simp [h2, Ne.symm hb], t, by simp [show s = _ from h3], h4⟩
        | full =>
          obtain ⟨h1, h2, h3⟩ := this
          exact ⟨by simp [h1], by simp [h2, Ne.symm hb], by simp [show s = _ from h3]⟩
        | closed =>
          obtain ⟨h1, h2, h3, h4⟩ := this
          exact ⟨by simpa using h1, by simp [h2, Ne.symm hb], by simp [show s = _ from h3], h4⟩

/-- A size line takes its characters from the connection. -/
theorem sizeLine_unread {c c' : Conn} {line : List UInt8} {e : LineEnd}
    (h : sizeLine c = (line, e, c')) :
    line.length + c'.unread.length ≤ c.unread.length := by
  have := sizeLineIn_spec (CHUNK_LINE_MAX - 1) c
  rw [show sizeLineIn (CHUNK_LINE_MAX - 1) c = _ from h] at this
  cases e with
  | cr =>
    obtain ⟨-, -, t, h1, h2⟩ := this
    simp only [h1, h2, List.length_append, List.length_cons, List.length_drop]
    omega
  | full => rw [this.2.2, List.length_append]
  | closed => simp [this.2.2.1, this.2.2.2]

theorem sizeValue_nil (cp : HttpCp) : sizeValue cp [] = 0 := rfl

theorem sizeValue_pos {cp : HttpCp} {line : List UInt8} (h : sizeValue cp line ≠ 0) :
    0 < line.length := by
  rcases line with _ | ⟨b, line⟩
  · exact absurd (sizeValue_nil cp) h
  · exact Nat.succ_pos _

/-- How the network cuts the stream does not matter to a size line. -/
theorem sizeLineIn_bulk : ∀ (room : Nat) (s : List UInt8) (bulk bulk' : List Nat),
    (sizeLineIn room ⟨s, bulk⟩).1 = (sizeLineIn room ⟨s, bulk'⟩).1 ∧
    (sizeLineIn room ⟨s, bulk⟩).2.1 = (sizeLineIn room ⟨s, bulk'⟩).2.1 ∧
    (sizeLineIn room ⟨s, bulk⟩).2.2.unread = (sizeLineIn room ⟨s, bulk'⟩).2.2.unread := by
  intro room
  induction room with
  | zero => intro s bulk bulk'; exact ⟨rfl, rfl, rfl⟩
  | succ room ih =>
    intro s bulk bulk'
    rcases s with _ | ⟨b, s⟩
    · exact ⟨rfl, rfl, rfl⟩
    · simp only [sizeLineIn, Conn.receiveRawData, List.take_succ_cons, List.take_zero,
        List.drop_succ_cons, List.drop_zero]
      split
      · exact ⟨rfl, rfl, rfl⟩
      · obtain ⟨h1, h2, h3⟩ := ih s bulk bulk'
        exact ⟨by simp [h1], h2, h3⟩

theorem sizeLine_bulk {c c' : Conn} {line : List UInt8} {e : LineEnd}
    (h : sizeLine c = (line, e, c')) :
    ∃ d, sizeLine ⟨c.unread, []⟩ = (line, e, d) ∧ d.unread = c'.unread := by
  obtain ⟨h1, h2, h3⟩ := sizeLineIn_bulk (CHUNK_LINE_MAX - 1) c.unread c.bulk []
  rw [show sizeLineIn (CHUNK_LINE_MAX - 1) ⟨c.unread, c.bulk⟩ = _ from h] at h1 h2 h3
  refine ⟨(sizeLine ⟨c.unread, []⟩).2.2, ?_, h3.symm⟩
  exact Prod.ext h1.symm (Prod.ext h2.symm rfl)

/-- A short line with its CR is read whole, and the byte behind the CR is skipped. -/
theorem sizeLineIn_cr : ∀ (room : Nat) (line t : List UInt8) (bulk : List Nat),
    line.length < room → Chunked.CR ∉ line →
    sizeLineIn room ⟨line ++ Chunked.CR :: t, bulk⟩ = (line, .cr, ⟨t.drop 1, bulk⟩) := by
  intro room
  induction room with
  | zero => intro line t bulk h; exact absurd h (Nat.not_lt_zero _)
  | succ room ih =>
    intro line t bulk h hcr
    cases line with
    | nil => simp [sizeLineIn, Conn.receiveRawData]
    | cons b line =>
      have hb : b ≠ Chunked.CR := fun hb => hcr (by simp [hb])
      have hl : Chunked.CR ∉ line := fun hm => hcr (List.mem_cons_of_mem _ hm)
      rw [List.length_cons] at h
      simp only [List.cons_append, sizeLineIn, Conn.receiveRawData, List.take_succ_cons,
        List.take_zero, List.drop_succ_cons, List.drop_zero, if_neg hb]
      rw [ih line t bulk (by omega) hl]

theorem sizeLine_short {line : List UInt8} (hl : line.length ≤ 8) (hcr : Chunked.CR ∉ line)
    (t : List UInt8) :
    sizeLine ⟨line ++ Chunked.CR :: t, []⟩ = (line, .cr, ⟨t.drop 1, []⟩) :=
  sizeLineIn_cr _ line t [] (Nat.lt_succ_of_le hl) hcr

/-! ## Well-formed size lines -/

theorem digitVal_high {c : Char} (h : 128 ≤ c.toNat) : CLib.digitVal c = none := by
  have hc : ∀ d : Char, d.toNat < 128 → ¬ c ≤ d := fun d hd hle => by
    have : c.toNat ≤ d.toNat := hle
    omega
  unfold CLib.digitVal
  rw [if_neg (fun h => hc '9' (by decide) h.2), if_neg (fun h => hc 'z' (by decide) h.2),
    if_neg (fun h => hc 'Z' (by decide) h.2)]

theorem hexVal_ascii : ∀ n < 128, (CLib.isDigit 16 (Char.ofNat n) =
      (Chunked.hexVal (UInt8.ofNat n)).isSome) ∧
    ((Chunked.hexVal (UInt8.ofNat n)).isSome = true →
      CLib.digitVal (Char.ofNat n) = Chunked.hexVal (UInt8.ofNat n)) := by
  decide +kernel

theorem hexVal_high {b : UInt8} (h : 128 ≤ b.toNat) : Chunked.hexVal b = none := by
  have hc : ∀ d : UInt8, d.toNat < 128 → ¬ b ≤ d := fun d hd hle => by
    have : b.toNat ≤ d.toNat := hle
    omega
  unfold Chunked.hexVal
  rw [if_neg (fun h => hc _ (by decide) h.2), if_neg (fun h => hc _ (by decide) h.2),
    if_neg (fun h => hc _ (by decide) h.2)]

theorem native_low (cp : HttpCp) {b : UInt8} (h : b.toNat < 128) :
    cp.native b = Char.ofNat b.toNat := cp.chr_atoe b h

/-- The hexadecimal digits of the wire are those of `strtoul`. -/
theorem isDigit_native (cp : HttpCp) (b : UInt8) :
    CLib.isDigit 16 (cp.native b) = (Chunked.hexVal b).isSome := by
  rcases Nat.lt_or_ge b.toNat 128 with h | h
  · rw [native_low cp h, (hexVal_ascii b.toNat h).1, UInt8.ofNat_toNat]
  · have := digitVal_high (cp.chr_atoe_high b h)
    rw [hexVal_high h, CLib.isDigit, HttpCp.native, this]
    rfl

theorem digitVal_native (cp : HttpCp) {b : UInt8} (hb : (Chunked.hexVal b).isSome = true) :
    CLib.digitVal (cp.native b) = Chunked.hexVal b := by
  rcases Nat.lt_or_ge b.toNat 128 with h | h
  · have := (hexVal_ascii b.toNat h).2
    rw [UInt8.ofNat_toNat] at this
    rw [native_low cp h, this hb]
  · rw [hexVal_high h] at hb
    cases hb

theorem numeral_native (cp : HttpCp) : ∀ (ds : List UInt8) (v : Nat),
    (∀ b ∈ ds, (Chunked.hexVal b).isSome = true) →
    (ds.map cp.native).foldl (fun v c => v * 16 + (CLib.digitVal c).getD 0) v =
      ds.foldl (fun v b => v * 16 + (Chunked.hexVal b).getD 0) v := by
  intro ds
  induction ds with
  | nil => intro v _; rfl
  | cons b ds ih =>
    intro v h
    rw [List.map_cons, List.foldl_cons, List.foldl_cons, digitVal_native cp (h b List.mem_cons_self)]
    exact ih _ fun c hc => h c (List.mem_cons_of_mem _ hc)

/-- A well-formed size line reads as its value, as far as an `unsigned long` holds it. -/
theorem strtoul_sizeText (cp : HttpCp) {line : List UInt8} {n : Nat}
    (h : Chunked.SizeLine line n) :
    sizeValue cp line = min n CLib.ULONG_MAX ∧ noDigits cp line = false := by
  obtain ⟨ds, ext, rfl, h0, hd, rfl, hx⟩ := h.split
  have hsemi : cp.native Chunked.SEMICOLON = ';' := native_low cp (by decide)
  have hhead : ∀ c ∈ (ext.map cp.native).head?, c = ';' := by
    rcases hx with rfl | ⟨e, rfl⟩
    · simp
    · simp [hsemi]
  have key : CLib.strtoul 16 (ds.map cp.native ++ ext.map cp.native) = _ :=
    CLib.strtoul_digits (by simpa using h0)
    (by
      intro c hc
      obtain ⟨b, hb, rfl⟩ := List.mem_map.mp hc
      rw [isDigit_native, hd b hb])
    (fun c hc => by rw [hhead c hc]; rfl)
    (fun c hc => by rw [hhead c hc]; exact ⟨by decide, by decide⟩) (Nat.le_refl _)
  unfold sizeValue noDigits sizeText
  rw [List.map_append, key]
  refine ⟨congrArg (min · _) (numeral_native cp ds 0 hd), ?_⟩
  rw [beq_eq_false_iff_ne]
  intro heq
  have := congrArg List.length heq
  have hpos := List.length_pos_of_ne_nil h0
  simp only [List.length_append, List.length_map] at this
  omega

theorem hexVal_lt {b : UInt8} : (Chunked.hexVal b).getD 0 < 16 := by
  have : ∀ n < 256, (Chunked.hexVal (UInt8.ofNat n)).getD 0 < 16 := by decide +kernel
  simpa using this b.toNat b.toNat_lt

theorem hexNumeral_lt (ds : List UInt8) : Chunked.hexNumeral ds < 16 ^ ds.length := by
  have key : ∀ (ds : List UInt8) (v : Nat),
      ds.foldl (fun v b => v * 16 + (Chunked.hexVal b).getD 0) v < (v + 1) * 16 ^ ds.length := by
    intro ds
    induction ds with
    | nil => intro v; simp
    | cons b ds ih =>
      intro v
      rw [List.foldl_cons, List.length_cons, Nat.pow_succ', ← Nat.mul_assoc]
      refine Nat.lt_of_lt_of_le (ih _) (Nat.mul_le_mul_right _ ?_)
      have := hexVal_lt (b := b)
      omega
  simpa [Chunked.hexNumeral] using key ds 0

/-- A size line of at most eight characters fits an `unsigned long`. -/
theorem sizeLine_value_le {line : List UInt8} {n : Nat} (h : Chunked.SizeLine line n)
    (hlen : line.length ≤ 8) : n ≤ CLib.ULONG_MAX := by
  obtain ⟨ds, ext, rfl, -, -, rfl, -⟩ := h.split
  rw [List.length_append] at hlen
  have h1 := hexNumeral_lt ds
  have h2 : 16 ^ ds.length ≤ 16 ^ 8 := Nat.pow_le_pow_right (by decide) (by omega)
  have : (16 : Nat) ^ 8 = CLib.ULONG_MAX + 1 := by decide
  omega

/-- A well-formed size line that fits the line buffer reads as its value. -/
theorem sizeValue_short (cp : HttpCp) {line : List UInt8} {n : Nat}
    (h : Chunked.SizeLine line n) (hlen : line.length ≤ 8) : sizeValue cp line = n := by
  rw [(strtoul_sizeText cp h).1, Nat.min_eq_left (sizeLine_value_le h hlen)]

/-- The size lines a reader's line buffer holds with their CR. -/
def Fits (line : List UInt8) : Prop := line.length ≤ 8

end Mvsmf
