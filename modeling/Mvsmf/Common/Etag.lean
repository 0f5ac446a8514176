import Mvsmf.Lib.Loop
import Mathlib

/-!
# ETags

The stamp of a data set, member or file: a CRC32 over what is stored and the count of its bytes, as
sixteen hexadecimal digits, and the comparison of an `If-Match` header with it.
-/

namespace Mvsmf

/-! ## The stamp -/

/-- The reflected CRC32 polynomial. -/
def ETAG_POLY : UInt32 := 0xEDB88320

def ETAG_LEN : Nat := 16

structure EtagCtx where
  crc : UInt32
  len : UInt32

def etagInit : EtagCtx := ⟨0xFFFFFFFF, 0⟩

def etagByte (crc : UInt32) (b : UInt8) : UInt32 :=
  (List.range 8).foldl
    (fun crc _ => if crc &&& 1 = 1 then (crc >>> 1) ^^^ ETAG_POLY else crc >>> 1) (crc ^^^ b.toUInt32)

/-- One byte stream's next piece. -/
def etagUpdateRaw (ctx : EtagCtx) (buf : List UInt8) : EtagCtx where
  crc := buf.foldl etagByte ctx.crc
  len := ctx.len + UInt32.ofNat buf.length

/-- One record: its length goes in first. -/
def etagUpdate (ctx : EtagCtx) (buf : List UInt8) : EtagCtx :=
  let n := UInt32.ofNat buf.length
  let crc := [n >>> 24, n >>> 16, n >>> 8, n].foldl (fun crc k => etagByte crc (k &&& 0xFF).toUInt8)
    ctx.crc
  { crc := buf.foldl etagByte crc
    len := ctx.len + n }

def hexDigit (d : Nat) : Char := if d < 10 then Char.ofNat (48 + d) else Char.ofNat (55 + d)

/-- A value under `%08X`. -/
def hex8 (n : UInt32) : List Char :=
  (List.range 8).map fun k => hexDigit (n.toNat / 16 ^ (7 - k) % 16)

def etagFinal (ctx : EtagCtx) : List Char := hex8 (ctx.crc ^^^ 0xFFFFFFFF) ++ hex8 ctx.len

/-! ## `If-Match` -/

def etagFold (c : Char) : Char :=
  if 'a' ≤ c ∧ c ≤ 'f' then Char.ofNat (c.toNat - 'a'.toNat + 'A'.toNat) else c

def isEtagSep (c : Char) : Bool := c == ' ' || c == '\t' || c == ','

def isEtagBlank (c : Char) : Bool := c == ' ' || c == '\t'

/-- One value of an entry against the stamp: the stamp itself, blanks behind it apart. -/
def etagValueMatches (val etag : List Char) : Bool :=
  decide (ETAG_LEN ≤ val.length) &&
    (val.take ETAG_LEN).map etagFold == (etag.take ETAG_LEN).map etagFold &&
    (val.drop ETAG_LEN).all isEtagBlank

def isEtagValue (c : Char) : Bool := c != ',' && c != '"'

/-- A `"` at the front, if there is one, and what is behind it. -/
def etagQuote : List Char → Bool × List Char
  | '"' :: p => (true, p)
  | p => (false, p)

def etagWeak : List Char → List Char
  | 'W' :: '/' :: p => p
  | p => p

/-- One entry of the list: the answer, or what is behind the entry. -/
def etagEntry (etag p : List Char) : List Char ⊕ Bool :=
  match p.dropWhile isEtagSep with
  | [] => .inr false
  | c :: p =>
    if c = '*' then .inr true
    else
      let (quoted, p) := etagQuote (etagWeak (c :: p))
      let val := p.takeWhile isEtagValue
      let p := p.dropWhile isEtagValue
      if etagValueMatches val etag then .inr true
      else
        let p := if quoted then (etagQuote p).2 else p
        .inl (p.dropWhile (· != ','))

theorem dropWhile_length_le {α : Type} (q : α → Bool) (l : List α) :
    (l.dropWhile q).length ≤ l.length := (List.dropWhile_suffix q).length_le

theorem etagQuote_length (p : List Char) : (etagQuote p).2.length ≤ p.length := by
  unfold etagQuote
  split
  · simp
  · exact Nat.le_refl _

/-- The value of an entry, its `W/` or its `"` takes a character. -/
theorem etagValue_lowers {c : Char} (hc : isEtagSep c = false) (t : List Char) :
    ((etagQuote (etagWeak (c :: t))).2.dropWhile isEtagValue).length ≤ t.length := by
  unfold etagWeak
  split
  next p hp =>
    obtain ⟨-, rfl⟩ := List.cons.inj hp
    calc
      ((etagQuote p).2.dropWhile isEtagValue).length ≤ (etagQuote p).2.length :=
        dropWhile_length_le _ _
      _ ≤ p.length := etagQuote_length p
      _ ≤ ('/' :: p).length := Nat.le_succ _
  next =>
    unfold etagQuote
    split
    next p hp =>
      obtain ⟨-, rfl⟩ := List.cons.inj hp
      exact dropWhile_length_le _ _
    next hne =>
      have hval : isEtagValue c = true := by
        have hquote : c ≠ '"' := by
          rintro rfl
          exact hne t rfl
        have hcomma : c ≠ ',' := by
          rintro rfl
          contradiction
        simp [isEtagValue, hquote, hcomma]
      rw [List.dropWhile_cons_of_pos hval]
      exact dropWhile_length_le _ _

/-- Every entry takes a character at least. -/
theorem etagEntry_lowers {etag p p' : List Char} (h : etagEntry etag p = .inl p') :
    p'.length < p.length := by
  rw [etagEntry] at h
  have hsep := dropWhile_length_le isEtagSep p
  cases hd : p.dropWhile isEtagSep with
  | nil => simp [hd] at h
  | cons c t =>
    rw [hd] at h hsep
    have hc : isEtagSep c = false := by
      have := List.head_dropWhile_not isEtagSep (l := p) (by simp [hd])
      simpa [hd] using this
    have hval := etagValue_lowers hc t
    dsimp only at h
    split at h
    next => simp at h
    next =>
      split at h
      next => simp at h
      next =>
        obtain rfl := Sum.inl.inj h
        have hquote := etagQuote_length ((etagQuote (etagWeak (c :: t))).2.dropWhile isEtagValue)
        rw [List.length_cons] at hsep
        split
        next =>
          have hrest := dropWhile_length_le (· != ',')
            (etagQuote ((etagQuote (etagWeak (c :: t))).2.dropWhile isEtagValue)).2
          omega
        next =>
          have hrest := dropWhile_length_le (· != ',')
            ((etagQuote (etagWeak (c :: t))).2.dropWhile isEtagValue)
          omega

/-- The comparison goes over the entries. -/
def etagLoop (etag : List Char) : Loop (List Char) Bool where
  step := etagEntry etag
  measure := List.length
  lowers := etagEntry_lowers

def etagMatches (header etag : List Char) : Bool := (etagLoop etag).exec header

example : etagMatches "W/\"00000000000000ab\" , *".toList "00000000000000AB".toList = true := by
  decide +kernel

/-! ## A stamp as a header -/

/-- Sixteen digits as `etag_final` writes them. -/
structure IsEtag (e : List Char) : Prop where
  length : e.length = ETAG_LEN
  digits : ∀ c ∈ e, c ∈ "0123456789ABCDEF".toList

theorem hexDigit_mem {d : Nat} (h : d < 16) : hexDigit d ∈ "0123456789ABCDEF".toList := by
  interval_cases d <;> decide

theorem hex8_isHex (n : UInt32) :
    (hex8 n).length = 8 ∧ ∀ c ∈ hex8 n, c ∈ "0123456789ABCDEF".toList := by
  constructor
  · simp [hex8]
  · intro c hc
    obtain ⟨k, -, rfl⟩ := List.mem_map.mp hc
    exact hexDigit_mem (Nat.mod_lt _ (by omega))

theorem hexDigit_inj {d e : Nat} (hd : d < 16) (he : e < 16) (h : hexDigit d = hexDigit e) :
    d = e := by
  have hall : ∀ d < 16, ∀ e < 16, hexDigit d = hexDigit e → d = e := by decide
  exact hall d hd e he h

theorem hex8_injective {n m : UInt32} (h : hex8 n = hex8 m) : n = m := by
  have hdigit : ∀ k < 8, n.toNat / 16 ^ k % 16 = m.toNat / 16 ^ k % 16 := by
    intro k hk
    have hnth := congrArg (·[7 - k]?) h
    have hrange : (List.range 8)[7 - k]? = some (7 - k) := by
      rw [List.getElem?_range (by omega)]
    simp only [hex8, List.getElem?_map, hrange, Option.map_some, Option.some.injEq] at hnth
    have hback : 7 - (7 - k) = k := by omega
    rw [hback] at hnth
    exact hexDigit_inj (Nat.mod_lt _ (by decide)) (Nat.mod_lt _ (by decide)) hnth
  have hlow : ∀ k ≤ 8, n.toNat % 16 ^ k = m.toNat % 16 ^ k := by
    intro k hk
    induction k with
    | zero => simp [Nat.mod_one]
    | succ k ih => rw [Nat.mod_pow_succ, Nat.mod_pow_succ, ih (by omega), hdigit k (by omega)]
  have hall : n.toNat % 2 ^ 32 = m.toNat % 2 ^ 32 := hlow 8 (Nat.le_refl _)
  rw [Nat.mod_eq_of_lt n.toNat_lt, Nat.mod_eq_of_lt m.toNat_lt] at hall
  exact UInt32.toNat_inj.mp hall

theorem etagFinal_isEtag (ctx : EtagCtx) : IsEtag (etagFinal ctx) := by
  obtain ⟨hlen, hdigits⟩ := hex8_isHex (ctx.crc ^^^ 0xFFFFFFFF)
  obtain ⟨hlen', hdigits'⟩ := hex8_isHex ctx.len
  refine ⟨?_, fun c hc => ?_⟩
  · rw [etagFinal, List.length_append, hlen, hlen', ETAG_LEN]
  · rcases List.mem_append.mp hc with hc | hc
    · exact hdigits c hc
    · exact hdigits' c hc

theorem digit_plain {c : Char} (h : c ∈ "0123456789ABCDEF".toList) :
    isEtagSep c = false ∧ c ≠ '*' ∧ c ≠ 'W' ∧ c ≠ '"' ∧ isEtagValue c = true ∧ etagFold c = c := by
  have hall : "0123456789ABCDEF".toList.all fun c =>
      isEtagSep c = false ∧ c ≠ '*' ∧ c ≠ 'W' ∧ c ≠ '"' ∧ isEtagValue c = true ∧
        etagFold c = c := by
    decide
  simpa using List.all_eq_true.mp hall c h

theorem map_etagFold {e : List Char} (h : ∀ c ∈ e, c ∈ "0123456789ABCDEF".toList) :
    e.map etagFold = e := by
  calc
    e.map etagFold = e.map id := List.map_congr_left fun c hc => (digit_plain (h c hc)).2.2.2.2.2
    _ = e := List.map_id e

theorem etagValueMatches_iff {e e' : List Char} (h : IsEtag e) (h' : IsEtag e') :
    etagValueMatches e e' = true ↔ e = e' := by
  have htake : e.take ETAG_LEN = e := List.take_of_length_le (Nat.le_of_eq h.length)
  have htake' : e'.take ETAG_LEN = e' := List.take_of_length_le (Nat.le_of_eq h'.length)
  have hdrop : e.drop ETAG_LEN = [] := List.drop_of_length_le (Nat.le_of_eq h.length)
  simp [etagValueMatches, htake, htake', hdrop, h.length, map_etagFold h.digits,
    map_etagFold h'.digits]

/-- A stamp sent as the header matches the same stamp. -/
theorem etagMatches_iff {e e' : List Char} (h : IsEtag e) (h' : IsEtag e') :
    etagMatches e e' = true ↔ e = e' := by
  obtain ⟨c, t, rfl⟩ : ∃ c t, e = c :: t := by
    cases e with
    | nil => exact absurd h.length (by decide)
    | cons c t => exact ⟨c, t, rfl⟩
  obtain ⟨hsep, hstar, hweak, hquote, -, -⟩ := digit_plain (h.digits c List.mem_cons_self)
  have hval : (c :: t).takeWhile isEtagValue = c :: t := by
    rw [List.takeWhile_eq_self_iff]
    intro x hx
    exact (digit_plain (h.digits x hx)).2.2.2.2.1
  have hbehind : (c :: t).dropWhile isEtagValue = [] := by
    rw [List.dropWhile_eq_nil_iff]
    intro x hx
    exact (digit_plain (h.digits x hx)).2.2.2.2.1
  have hentry : (etagLoop e').step (c :: t) =
      if etagValueMatches (c :: t) e' then .inr true else .inl [] := by
    have hplain : etagQuote (etagWeak (c :: t)) = (false, c :: t) := by
      have hw : etagWeak (c :: t) = c :: t := by
        rw [etagWeak]
        rintro p hp
        exact hweak (List.cons.inj hp).1
      rw [hw, etagQuote]
      rintro p hp
      exact hquote (List.cons.inj hp).1
    change etagEntry e' (c :: t) = _
    rw [etagEntry, List.dropWhile_cons_of_neg (by simp [hsep])]
    simp [hstar, hplain, hval, hbehind]
  rw [etagMatches, Loop.exec_eq, hentry, ← etagValueMatches_iff h h']
  split
  next s hs =>
    split at hs
    next => simp at hs
    next hne =>
      obtain rfl := Sum.inl.inj hs
      rw [Loop.exec_done (etagLoop e') (r := false) rfl]
      simp [hne]
  next r hr =>
    split at hr
    next hm =>
      obtain rfl := Sum.inr.inj hr
      simp [hm]
    next => simp at hr

/-! ## The request for a stamp -/

/-- `etag_requested`: the value of `X-IBM-Return-Etag` is `true`, in any case. -/
def etagRequested (value : Option (List Char)) : Bool :=
  match value with
  | none => false
  | some value =>
    let isBlank (c : Char) : Bool := c = ' ' || c = '\t'
    let value := value.dropWhile isBlank
    (value.take 4).map Char.toLower = ['t', 'r', 'u', 'e'] && ((value.drop 4).all isBlank)

end Mvsmf
