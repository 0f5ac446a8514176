import Mathlib

/-!
# The chunked transfer coding

What a chunked body is on the wire: chunks, each a size line of hexadecimal digits with an optional
extension behind a semicolon, CRLF, as many bytes as the line says, and CRLF; then a size line whose
value is 0. `Coded P s b rest` reads the stream `s` as the body `b` with `rest` behind the last size
line, every size line of it meeting `P`; in `CodedFrom` what it has to meet may depend on the chunks in
front of it. The reading is unique (`Coded.unique`), and every body has
one (`Coded.ofBody`).
-/

namespace Chunked

def CR : UInt8 := 0x0D
def LF : UInt8 := 0x0A
def SEMICOLON : UInt8 := 0x3B

/-- The value of an ASCII hexadecimal digit. -/
def hexVal (b : UInt8) : Option Nat :=
  if 0x30 ≤ b ∧ b ≤ 0x39 then some (b.toNat - 48)
  else if 0x61 ≤ b ∧ b ≤ 0x66 then some (b.toNat - 87)
  else if 0x41 ≤ b ∧ b ≤ 0x46 then some (b.toNat - 55)
  else none

def hexNumeral (ds : List UInt8) : Nat :=
  ds.foldl (fun v b => v * 16 + (hexVal b).getD 0) 0

/-- A size line of value `n`, without its CRLF. -/
structure SizeLine (line : List UInt8) (n : Nat) : Prop where
  split : ∃ ds ext, line = ds ++ ext ∧ ds ≠ [] ∧ (∀ b ∈ ds, (hexVal b).isSome = true) ∧
    hexNumeral ds = n ∧ (ext = [] ∨ ∃ e, ext = SEMICOLON :: e)
  noCR : CR ∉ line
  noLF : LF ∉ line

/-- `s` is a chunked body `b` with `rest` behind its last size line. -/
inductive Coded (P : List UInt8 → Prop) : List UInt8 → List UInt8 → List UInt8 → Prop
  | last {line rest : List UInt8} (hp : P line) (hl : SizeLine line 0) :
      Coded P (line ++ CR :: LF :: rest) [] rest
  | chunk {line data s b rest : List UInt8} (hp : P line) (hl : SizeLine line data.length)
      (hd : data ≠ []) (tail : Coded P s b rest) :
      Coded P (line ++ CR :: LF :: (data ++ CR :: LF :: s)) (data ++ b) rest

/-- A chunked body whose size lines meet what is asked of them at each place: `next` is the place
behind a chunk. -/
inductive CodedFrom {S : Type} (P : S → List UInt8 → Prop) (next : S → Nat → S) :
    S → List UInt8 → List UInt8 → List UInt8 → Prop
  | last {st : S} {line rest : List UInt8} (hp : P st line) (hl : SizeLine line 0) :
      CodedFrom P next st (line ++ CR :: LF :: rest) [] rest
  | chunk {st : S} {line data s b rest : List UInt8} (hp : P st line)
      (hl : SizeLine line data.length) (hd : data ≠ [])
      (tail : CodedFrom P next (next st data.length) s b rest) :
      CodedFrom P next st (line ++ CR :: LF :: (data ++ CR :: LF :: s)) (data ++ b) rest

/-- Every size line allowed. -/
abbrev Strict := Coded fun _ => True

theorem Coded.mono {P Q : List UInt8 → Prop} (hPQ : ∀ l, P l → Q l) {s b rest : List UInt8}
    (h : Coded P s b rest) : Coded Q s b rest := by
  induction h with
  | last hp hl => exact .last (hPQ _ hp) hl
  | chunk hp hl hd _ ih => exact .chunk (hPQ _ hp) hl hd ih

/-- A line without a CR is what stands in front of the first one. -/
theorem line_unique {l l' t t' : List UInt8} (h : CR ∉ l) (h' : CR ∉ l')
    (heq : l ++ CR :: t = l' ++ CR :: t') : l = l' ∧ t = t' := by
  induction l generalizing l' with
  | nil =>
    cases l' with
    | nil => exact ⟨rfl, (List.cons.inj heq).2⟩
    | cons c l' => exact absurd (List.mem_cons.mpr (.inl (List.cons.inj heq).1)) h'
  | cons b l ih =>
    cases l' with
    | nil => exact absurd (List.mem_cons.mpr (.inl (List.cons.inj heq).1.symm)) h
    | cons c l' =>
      obtain ⟨hbc, htl⟩ := List.cons.inj heq
      obtain ⟨hl, ht⟩ := ih (fun m => h (List.mem_cons_of_mem _ m))
        (fun m => h' (List.mem_cons_of_mem _ m)) htl
      exact ⟨by rw [hbc, hl], ht⟩

/-- The digits of a size line are those in front of its extension. -/
theorem SizeLine.value_unique {line : List UInt8} {m n : Nat} (h : SizeLine line m)
    (h' : SizeLine line n) : m = n := by
  obtain ⟨ds, ext, e1, -, hd, rfl, hx⟩ := h.split
  obtain ⟨ds', ext', e2, -, hd', rfl, hx'⟩ := h'.split
  have key : ∀ (ds ext : List UInt8), (∀ b ∈ ds, (hexVal b).isSome = true) →
      (ext = [] ∨ ∃ e, ext = SEMICOLON :: e) →
      (ds ++ ext).takeWhile (fun b => (hexVal b).isSome) = ds := by
    intro ds ext hd hx
    rw [List.takeWhile_append_of_pos hd]
    rcases hx with rfl | ⟨e, rfl⟩
    · simp
    · rw [List.takeWhile_cons_of_neg (by decide), List.append_nil]
  rw [← key ds ext hd hx, ← key ds' ext' hd' hx', ← e1, ← e2]

/-- The first size line of a chunked body. -/
theorem Coded.first_line {P : List UInt8 → Prop} {s b rest line t : List UInt8}
    (h : Coded P s b rest) (hcr : CR ∉ line) (hs : s = line ++ CR :: t) : P line := by
  cases h with
  | last hp hl =>
    obtain ⟨rfl, -⟩ := line_unique hl.noCR hcr hs
    exact hp
  | chunk hp hl _ _ =>
    obtain ⟨rfl, -⟩ := line_unique hl.noCR hcr hs
    exact hp

/-- What stands behind the first chunk of a chunked body. -/
theorem Coded.behind_chunk {P : List UInt8 → Prop} {s t b rest line data : List UInt8}
    (h : Coded P s b rest) (hl : SizeLine line data.length) (hd : data ≠ [])
    (hs : s = line ++ CR :: LF :: (data ++ CR :: LF :: t)) :
    ∃ b', b = data ++ b' ∧ Coded P t b' rest := by
  cases h with
  | last hp' hl' =>
    obtain ⟨rfl, -⟩ := line_unique hl'.noCR hl.noCR hs
    exact absurd (hl.value_unique hl') (by simpa using hd)
  | chunk hp' hl' hd' tail =>
    obtain ⟨rfl, ht⟩ := line_unique hl'.noCR hl.noCR hs
    have hlen := hl'.value_unique hl
    obtain ⟨rfl, ht'⟩ := List.append_inj (List.cons.inj ht).2 hlen
    obtain rfl := (List.cons.inj (List.cons.inj ht').2).2
    exact ⟨_, rfl, tail⟩

/-- A stream is read as a chunked body in one way only. -/
theorem Coded.unique {P Q : List UInt8 → Prop} {s b b' rest rest' : List UInt8}
    (h : Coded P s b rest) (h' : Coded Q s b' rest') : b = b' ∧ rest = rest' := by
  induction h generalizing b' with
  | @last line rest hp hl =>
    generalize hs : line ++ CR :: LF :: rest = s at h'
    cases h' with
    | last hp' hl' =>
      obtain ⟨-, ht⟩ := line_unique hl.noCR hl'.noCR hs
      exact ⟨rfl, (List.cons.inj ht).2⟩
    | chunk hp' hl' hd' _ =>
      obtain ⟨rfl, -⟩ := line_unique hl.noCR hl'.noCR hs
      exact absurd (hl.value_unique hl').symm (by simpa using hd')
  | chunk hp hl hd _ ih =>
    obtain ⟨b'', rfl, htail⟩ := h'.behind_chunk hl hd rfl
    obtain ⟨rfl, rfl⟩ := ih htail
    exact ⟨rfl, rfl⟩

/-- A beginning of `a ++ x :: b` ends in `a`, or goes on behind `x`. -/
theorem prefix_append_cons_cases {α : Type} {l a b : List α} {x : α} (h : l <+: a ++ x :: b) :
    l <+: a ∨ ∃ v, l = a ++ x :: v ∧ v <+: b := by
  rcases List.prefix_or_prefix_of_prefix h (List.prefix_append a (x :: b)) with hl | ⟨u, rfl⟩
  · exact Or.inl hl
  · have hu : u <+: x :: b := (List.prefix_append_right_inj a).mp h
    cases u with
    | nil => exact Or.inl (by rw [List.append_nil])
    | cons y v =>
      obtain ⟨rfl, hv⟩ := List.cons_prefix_cons.mp hu
      exact Or.inr ⟨v, rfl, hv⟩

/-- A coded stream ends its last size line in front of what is behind it. -/
theorem Coded.ends {P : List UInt8 → Prop} {s b rest : List UInt8} (h : Coded P s b rest) :
    ∃ front, s = front ++ LF :: rest := by
  induction h with
  | @last line rest hp hl => exact ⟨line ++ [CR], by simp⟩
  | @chunk line data s b rest hp hl hd tail ih =>
    obtain ⟨front, rfl⟩ := ih
    exact ⟨line ++ CR :: LF :: (data ++ CR :: LF :: front), by simp⟩

/-- The size line of a chunk of one byte. -/
theorem sizeLine_one : SizeLine [0x31] 1 :=
  ⟨⟨[0x31], [], rfl, nofun, by simp [hexVal], rfl, .inl rfl⟩, by simp [CR], by simp [LF]⟩

theorem sizeLine_zero : SizeLine [0x30] 0 :=
  ⟨⟨[0x30], [], rfl, nofun, by simp [hexVal], rfl, .inl rfl⟩, by simp [CR], by simp [LF]⟩

/-- Every body can be sent in chunks, here of one byte each. -/
theorem Coded.ofBody {P : List UInt8 → Prop} (h0 : P [0x30]) (h1 : P [0x31])
    (body rest : List UInt8) : ∃ s, Coded P s body rest := by
  induction body with
  | nil => exact ⟨_, .last h0 sizeLine_zero⟩
  | cons b body ih =>
    obtain ⟨s, hs⟩ := ih
    exact ⟨_, .chunk h1 (show SizeLine [0x31] [b].length from sizeLine_one) (by simp) hs⟩

end Chunked
