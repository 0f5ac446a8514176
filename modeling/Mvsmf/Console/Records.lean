import Mvsmf.Common.CodePage
import Mvsmf.Common.Etag
import Mvsmf.Console.Collect
import Mvsmf.Console.Detect
import Mvsmf.Console.NtStore

/-!
# Keys and records of the console requests

A response key is the clock in hexadecimal, a detection key the microseconds of the clock in seven
digits behind a `D`. Both name an entry of the one store, whose values are the bytes of a
`SOL_CURSOR` or a `SOL_DETECTION`; the two structures are of one size.
-/

namespace Mvsmf

/-! ## Keys -/

/-- The EBCDIC byte of a character. -/
def nativeByte (c : Char) : UInt8 := CP037_A2E.getD c.toNat 0

def nativeChar (b : UInt8) : Char := Char.ofNat (CP037_E2A.getD b.toNat 0).toNat

/-- The key of a command issued at `issueTod`. -/
def responseKey (issueTod : UInt64) : List Char :=
  hex8 (issueTod >>> 32).toUInt32 ++ hex8 issueTod.toUInt32

/-- The 28 bits of the clock that a detection key has. -/
def detectionBits (issueTod : UInt64) : UInt32 := ((issueTod >>> 12) &&& 0xFFFFFFF).toUInt32

def detectionKey (issueTod : UInt64) : List Char := 'D' :: (hex8 (detectionBits issueTod)).drop 1

def keyToName (key : List Char) : NtName :=
  Vector.ofFn fun i => (key.map nativeByte).getD i 0

def responseName (issueTod : UInt64) : NtName := keyToName (responseKey issueTod)

def detectionName (issueTod : UInt64) : NtName := keyToName (detectionKey issueTod)

theorem responseKey_length (t : UInt64) : (responseKey t).length = 16 := by
  rw [responseKey, List.length_append, (hex8_isHex _).1, (hex8_isHex _).1]

theorem detectionKey_length (t : UInt64) : (detectionKey t).length = 8 := by
  rw [detectionKey, List.length_cons, List.length_drop, (hex8_isHex _).1]

/-- Keys are made of hexadecimal digits. -/
theorem responseKey_isHex (t : UInt64) : ∀ c ∈ responseKey t, c ∈ "0123456789ABCDEF".toList := by
  intro c hc
  rcases List.mem_append.mp hc with hc | hc
  · exact (hex8_isHex _).2 c hc
  · exact (hex8_isHex _).2 c hc

theorem detectionKey_isHex (t : UInt64) : ∀ c ∈ detectionKey t, c ∈ "0123456789ABCDEF".toList := by
  intro c hc
  rcases List.mem_cons.mp hc with rfl | hc
  · decide
  · exact (hex8_isHex _).2 c (List.mem_of_mem_drop hc)

theorem nativeByte_hex {c d : Char} (hc : c ∈ "0123456789ABCDEF".toList)
    (hd : d ∈ "0123456789ABCDEF".toList) :
    nativeByte c ≠ 0 ∧ (nativeByte c = nativeByte d → c = d) := by
  have hdigits : "0123456789ABCDEF".toList = ['0', '1', '2', '3', '4', '5', '6', '7', '8', '9', 'A',
      'B', 'C', 'D', 'E', 'F'] := by decide
  have hall : (['0', '1', '2', '3', '4', '5', '6', '7', '8', '9', 'A', 'B', 'C', 'D', 'E',
      'F'].all fun c => nativeByte c != 0 && ['0', '1', '2', '3', '4', '5', '6', '7', '8', '9', 'A',
      'B', 'C', 'D', 'E', 'F'].all fun d => nativeByte c != nativeByte d || c == d) = true := by
    decide +kernel
  rw [hdigits] at hc hd
  have hone := List.all_eq_true.mp hall c hc
  rw [Bool.and_eq_true] at hone
  have htwo := List.all_eq_true.mp hone.2 d hd
  refine ⟨by simpa using hone.1, fun heq => ?_⟩
  simpa [heq] using htwo

theorem keyToName_get (key : List Char) (i : Nat) (hi : i < MVSMF_KVS_NAMELEN) :
    (keyToName key)[i] = (key.map nativeByte).getD i 0 := by
  simp [keyToName]

/-- A key of hexadecimal digits is read back from its name. -/
theorem keyToName_inj {key key' : List Char} (hlen : key.length = key'.length)
    (hfits : key.length ≤ MVSMF_KVS_NAMELEN) (hhex : ∀ c ∈ key, c ∈ "0123456789ABCDEF".toList)
    (hhex' : ∀ c ∈ key', c ∈ "0123456789ABCDEF".toList) (h : keyToName key = keyToName key') :
    key = key' := by
  apply List.ext_getElem hlen
  intro i hi hi'
  have hname : i < MVSMF_KVS_NAMELEN := Nat.lt_of_lt_of_le hi hfits
  have hget := congrArg (fun n : NtName => n[i]) h
  simp only [keyToName_get] at hget
  have hbyte : nativeByte key[i] = nativeByte key'[i] := by
    simpa [List.getD_eq_getElem?_getD, hi, hi'] using hget
  exact (nativeByte_hex (hhex _ (List.getElem_mem hi)) (hhex' _ (List.getElem_mem hi'))).2 hbyte

/-- Two commands have one key only if they were issued at one time. -/
theorem responseName_inj {t t' : UInt64} (h : responseName t = responseName t') : t = t' := by
  have hkey : responseKey t = responseKey t' :=
    keyToName_inj (by rw [responseKey_length, responseKey_length])
      (by rw [responseKey_length]) (responseKey_isHex t) (responseKey_isHex t') h
  obtain ⟨hhi, hlo⟩ := List.append_inj hkey (by rw [(hex8_isHex _).1, (hex8_isHex _).1])
  have hhi := congrArg UInt32.toNat (hex8_injective hhi)
  have hlo := congrArg UInt32.toNat (hex8_injective hlo)
  have ht := t.toNat_lt
  have ht' := t'.toNat_lt
  simp only [UInt64.toNat_toUInt32, UInt64.toNat_shiftRight, Nat.shiftRight_eq_div_pow] at hhi hlo
  apply UInt64.toNat_inj.mp
  change t.toNat / 2 ^ 32 % 2 ^ 32 = t'.toNat / 2 ^ 32 % 2 ^ 32 at hhi
  omega

/-- The microseconds of the clock that a detection key tells apart: it starts again after 2 ^ 28 of
them. -/
def detectionMicros (t : UInt64) : Nat := t.toNat / 2 ^ 12 % 2 ^ 28

theorem detectionBits_toNat (t : UInt64) : (detectionBits t).toNat = detectionMicros t := by
  have hmask : (0xFFFFFFF : UInt64).toNat = 2 ^ 28 - 1 := rfl
  have hlow : ((t >>> 12) &&& 0xFFFFFFF).toNat = t.toNat / 2 ^ 12 % 2 ^ 28 := by
    rw [UInt64.toNat_and, hmask, Nat.and_two_pow_sub_one_eq_mod, UInt64.toNat_shiftRight,
      Nat.shiftRight_eq_div_pow]
    rfl
  rw [detectionBits, UInt64.toNat_toUInt32, hlow, detectionMicros]
  omega

theorem detectionName_eq_iff (t t' : UInt64) :
    detectionName t = detectionName t' ↔ detectionMicros t = detectionMicros t' := by
  have hfirst : ∀ t, (hex8 (detectionBits t)).head? = some '0' := by
    intro t
    have hlt : (detectionBits t).toNat / 16 ^ 7 % 16 = 0 := by
      rw [detectionBits_toNat, detectionMicros]
      omega
    have hhead : (hex8 (detectionBits t)).head? =
        some (hexDigit ((detectionBits t).toNat / 16 ^ 7 % 16)) := rfl
    rw [hhead, hlt]
    rfl
  have hwhole : ∀ t, hex8 (detectionBits t) = '0' :: (hex8 (detectionBits t)).drop 1 := by
    intro t
    have hhead := hfirst t
    cases hlist : hex8 (detectionBits t) with
    | nil => simp [hlist] at hhead
    | cons c cs =>
      rw [hlist] at hhead
      obtain rfl : c = '0' := Option.some.inj hhead
      rfl
  constructor
  · intro h
    have hkey : detectionKey t = detectionKey t' :=
      keyToName_inj (by rw [detectionKey_length, detectionKey_length])
        (by rw [detectionKey_length]; decide) (detectionKey_isHex t) (detectionKey_isHex t') h
    have hdigits := (List.cons.inj hkey).2
    have hbits : detectionBits t = detectionBits t' := by
      apply hex8_injective
      rw [hwhole t, hwhole t', hdigits]
    rw [← detectionBits_toNat, ← detectionBits_toNat, hbits]
  · intro h
    have hbits : detectionBits t = detectionBits t' := by
      apply UInt32.toNat_inj.mp
      rw [detectionBits_toNat, detectionBits_toNat, h]
    rw [detectionName, detectionName, detectionKey, detectionKey, hbits]

/-- No response key is a detection key: the one has sixteen digits, the other eight. -/
theorem responseName_ne_detectionName (t t' : UInt64) : responseName t ≠ detectionName t' := by
  intro h
  have hget := congrArg (fun n : NtName => n[15]) h
  have hlen := responseKey_length t
  have hshort := detectionKey_length t'
  simp only [responseName, detectionName, keyToName_get] at hget
  have hzero : ((detectionKey t').map nativeByte).getD 15 0 = 0 := by
    rw [List.getD_eq_getElem?_getD, List.getElem?_eq_none (by simp [hshort])]
    rfl
  have hdigit : ((responseKey t).map nativeByte).getD 15 0 = nativeByte (responseKey t)[15] := by
    simp [List.getD_eq_getElem?_getD, hlen]
  rw [hzero, hdigit] at hget
  have hmem := responseKey_isHex t _ (List.getElem_mem (by omega : 15 < (responseKey t).length))
  exact (nativeByte_hex hmem hmem).1 hget

theorem nameFree_key {key : List Char} (hne : key ≠ [])
    (hhex : ∀ c ∈ key, c ∈ "0123456789ABCDEF".toList) : nameFree (keyToName key) = false := by
  obtain ⟨c, cs, rfl⟩ := List.exists_cons_of_ne_nil hne
  have hc := hhex c List.mem_cons_self
  have hbyte : (keyToName (c :: cs))[0] = nativeByte c := by
    rw [keyToName_get]
    rfl
  by_contra hfree
  rw [Bool.not_eq_false, nameFree, List.all_eq_true] at hfree
  have hmem : (keyToName (c :: cs))[0] ∈ (keyToName (c :: cs)).toList := by simp
  have := hfree _ hmem
  rw [hbyte, beq_iff_eq] at this
  exact (nativeByte_hex hc hc).1 this

theorem nameFree_responseName (t : UInt64) : nameFree (responseName t) = false := by
  refine nameFree_key (fun hnil => ?_) (responseKey_isHex t)
  have := responseKey_length t
  simp [hnil] at this

theorem nameFree_detectionName (t : UInt64) : nameFree (detectionName t) = false :=
  nameFree_key (by simp [detectionKey]) (detectionKey_isHex t)

/-! ## Records -/

/-- `n` in `k` bytes, the first the highest. -/
def beBytes (k n : Nat) : List UInt8 :=
  (List.range k).map fun i => UInt8.ofNat (n / 256 ^ (k - 1 - i))

def beNat (bs : List UInt8) : Nat := bs.foldl (fun n b => 256 * n + b.toNat) 0

/-- A count of seconds as an `int`, -1 for none. -/
def secsWord (secs : Option Nat) : Nat := secs.getD 0xFFFFFFFF

def secsOf (word : Nat) : Option Nat := if word < 2 ^ 31 then some word else none

/-- The text in a cleared array of `k` bytes. -/
def textField (k : Nat) (text : List Char) : List UInt8 :=
  (text.map nativeByte ++ List.replicate k 0).take k

def textOf (bs : List UInt8) : List Char := (bs.takeWhile (· != 0)).map nativeChar

/-- `SOL_DETECTION`. -/
structure SolDetection where
  anchorHi : UInt32
  detectSecs : UInt32
  base : MttAnchor
  key : List Char

def SIZEOF_SOL_CURSOR : Nat := 144
def SIZEOF_SOL_DETECTION : Nat := 144

/-- A `SOL_CURSOR`, with the byte behind `cmd[126]` that fills it up. -/
def cursorBytes (issueTod : UInt64) (cmdlen : UInt8) (cur : SolCursor) : List UInt8 :=
  beBytes 8 issueTod.toNat ++ beBytes 4 cur.delivered ++ beBytes 4 (secsWord cur.echoSecs) ++
    [cmdlen] ++ textField 126 cur.cmd ++ [0]

def detectionBytes (det : SolDetection) : List UInt8 :=
  beBytes 4 det.anchorHi.toNat ++ beBytes 4 det.detectSecs.toNat ++
    beBytes 4 (secsWord det.base.secs) ++ beBytes 4 det.base.same ++
    [UInt8.ofNat det.key.length] ++ textField 126 det.key ++ [0]

/-- The bytes as a cursor. -/
def cursorOf (val : List UInt8) : SolCursor where
  delivered := beNat ((val.drop 8).take 4)
  echoSecs := secsOf (beNat ((val.drop 12).take 4))
  cmd := textOf ((val.drop 17).take 127)

/-- The bytes as a detection. -/
def detectionOf (val : List UInt8) : SolDetection where
  anchorHi := UInt32.ofNat (beNat (val.take 4))
  detectSecs := UInt32.ofNat (beNat ((val.drop 4).take 4))
  base := ⟨secsOf (beNat ((val.drop 8).take 4)), beNat ((val.drop 12).take 4)⟩
  key := textOf ((val.drop 17).take 127)

theorem length_beBytes (k n : Nat) : (beBytes k n).length = k := by
  rw [beBytes, List.length_map, List.length_range]

theorem length_textField (k : Nat) (text : List Char) : (textField k text).length = k := by
  rw [textField, List.length_take, List.length_append, List.length_replicate]
  omega

/-- **One size.** The length of a record does not tell what it is. -/
theorem length_records (issueTod : UInt64) (cmdlen : UInt8) (cur : SolCursor) (det : SolDetection) :
    (cursorBytes issueTod cmdlen cur).length = SIZEOF_SOL_CURSOR ∧
      (detectionBytes det).length = SIZEOF_SOL_DETECTION := by
  simp [cursorBytes, detectionBytes, length_beBytes, length_textField, SIZEOF_SOL_CURSOR,
    SIZEOF_SOL_DETECTION]

/-! ## What the endpoints make of a record -/

/-- A collect from the record: the answer, and the record with its count. -/
def collectRecord (val : List UInt8) (c : CollectCall) :
    Except ConsoleError (List Char) × List UInt8 :=
  let r := consoleCollect (cursorOf val) c
  (r.1, val.take 8 ++ beBytes 4 r.2.delivered ++ val.drop 12)

inductive DetectStatus where
  | detected
  | expired
  | waiting
deriving DecidableEq

/-- The answer for a detection record, and the status with its message. -/
def detectRecord (val : List UInt8) (snap : Option (List MtEntry)) (todHi : UInt32) :
    Except ConsoleError (DetectStatus × List Char) :=
  let det := detectionOf val
  match mttDetectSince snap det.key det.base 200 with
  | (none, _) =>
    .error ⟨500, 8, 1, "An error occurred during the retrieval of the detection result."⟩
  | (some count, msg) =>
    if count > 0 then .ok (.detected, msg)
    else if todHi - det.anchorHi > det.detectSecs then .ok (.expired, [])
    else .ok (.waiting, [])

/-- The answer for a detection key the store does not have. -/
def detectUnknown : Except ConsoleError (DetectStatus × List Char) :=
  .error ⟨500, 5, 9, "Cannot find the result for the specified detection ID."⟩

end Mvsmf
