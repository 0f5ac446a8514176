import Mvsmf.Lib.Bytes
import Mvsmf.Lib.Padding

/-!
# Names of data sets and members

Names of the catalog and of a directory are upper case and end before their padding. A name of a
request is trimmed and folded: `normalize_dsn` refuses one that is too long, `make_query_key` cuts a
start value to what the key can hold and says so. The functions are the same whether a character is
an EBCDIC byte or what the compiled code takes it for.
-/

namespace Mvsmf

def MAX_DATASET_NAME : Nat := 44

def MAX_MEMBER_NAME : Nat := 8

/-- A character set of the C library: its blank and its `toupper`. -/
class HostChar (χ : Type) where
  blank : χ
  toupper : χ → χ
  toupper_toupper : ∀ c, toupper (toupper c) = toupper c
  toupper_eq_blank : ∀ c, toupper c = blank ↔ c = blank

/-- `toupper` of an EBCDIC byte. -/
def ebcdicToupper (b : UInt8) : UInt8 :=
  if (0x81 ≤ b ∧ b ≤ 0x89) ∨ (0x91 ≤ b ∧ b ≤ 0x99) ∨ (0xA2 ≤ b ∧ b ≤ 0xA9) then b + 0x40 else b

/-- EBCDIC. -/
instance : HostChar UInt8 where
  blank := 0x40
  toupper := ebcdicToupper
  toupper_toupper b := by
    unfold ebcdicToupper
    grind
  toupper_eq_blank b := by
    unfold ebcdicToupper
    grind

theorem toNat_toUpper (c : Char) :
    c.toUpper.toNat = if 97 ≤ c.toNat ∧ c.toNat ≤ 122 then c.toNat - 32 else c.toNat := by
  have hval : c.val.toNat = c.toNat := rfl
  have hlower : 'a'.val ≤ c.val ∧ c.val ≤ 'z'.val ↔ 97 ≤ c.toNat ∧ c.toNat ≤ 122 := by
    rw [UInt32.le_iff_toNat_le, UInt32.le_iff_toNat_le]
    rfl
  unfold Char.toUpper
  split
  · next h =>
    have hshift : (c.val + ('A'.val - 'a'.val)).toNat = c.toNat - 32 := by
      have := (hlower.mp h).1
      have := (hlower.mp h).2
      rw [UInt32.toNat_add, hval, show ('A'.val - 'a'.val).toNat = 4294967264 from rfl]
      omega
    rw [if_pos (hlower.mp h)]
    exact hshift
  · next h => rw [if_neg fun h' => h (hlower.mpr h')]

/-- The native character set. -/
instance : HostChar Char where
  blank := ' '
  toupper := Char.toUpper
  toupper_toupper c := by
    rw [← Char.toNat_inj, toNat_toUpper, toNat_toUpper]
    split
    · next h => rw [if_neg (by omega)]
    · rfl
  toupper_eq_blank c := by
    rw [← Char.toNat_inj, ← Char.toNat_inj, toNat_toUpper, show ' '.toNat = 32 from rfl]
    split
    · omega
    · rfl

section

variable {χ : Type} [DecidableEq χ] [HostChar χ]

/-- A value without its trailing blanks. -/
def unpadded (value : List χ) : List χ := value.rdropWhile (· == HostChar.blank)

/-- A value as the catalog and a directory spell it. -/
def folded (value : List χ) : List χ := (unpadded value).map HostChar.toupper

def normalizeDsn (value : Option (List χ)) (outlen : Nat) : Option (List χ) :=
  match value with
  | none => none
  | some value =>
    let n := (unpadded value).length
    if outlen = 0 ∨ n = 0 ∨ n > outlen - 1 then none
    else some ((value.take n).map HostChar.toupper)

/-- The key and whether the value was cut; `none` if there is nothing to compare with. -/
def makeQueryKey (value : Option (List χ)) (keylen : Nat) : Option (List χ × Bool) :=
  match value with
  | none => none
  | some value =>
    let n := (unpadded value).length
    if n = 0 then none
    else if n > keylen - 1 then some ((value.take (keylen - 1)).map HostChar.toupper, true)
    else some ((value.take n).map HostChar.toupper, false)

theorem unpadded_prefix (value : List χ) : unpadded value <+: value := List.rdropWhile_prefix _ _

theorem take_unpadded (value : List χ) : value.take (unpadded value).length = unpadded value :=
  (List.prefix_iff_eq_take.mp ( unpadded_prefix value)).symm

theorem length_folded (value : List χ) : (folded value).length = (unpadded value).length :=
  List.length_map _

theorem length_eq_zero_iff_folded {value : List χ} :
    (unpadded value).length = 0 ↔ folded value = [] := by
  rw [← length_folded, List.length_eq_zero_iff]

/-- A name that is accepted is the whole value. -/
theorem normalizeDsn_eq_some_iff {value : Option (List χ)} {outlen : Nat} {name : List χ} :
    normalizeDsn value outlen = some name ↔
      ∃ v, value = some v ∧ name = folded v ∧ folded v ≠ [] ∧ (folded v).length < outlen := by
  cases value with
  | none => exact iff_of_false nofun (fun ⟨_, h, _⟩ => nomatch h)
  | some v =>
    have hname : (v.take (folded v).length).map HostChar.toupper = folded v := by
      rw [length_folded, take_unpadded, folded]
    rw [normalizeDsn]
    simp only [← length_folded, hname, Option.some.injEq]
    have hnil : folded v ≠ [] ↔ (folded v).length ≠ 0 := List.length_eq_zero_iff.not.symm
    split
    · next h =>
      refine iff_of_false nofun ?_
      rintro ⟨_, rfl, -, h0, hlt⟩
      rw [hnil] at h0
      omega
    · next h =>
      rw [Option.some.injEq]
      constructor
      · rintro rfl
        exact ⟨v, rfl, rfl, hnil.mpr (by omega), by omega⟩
      · rintro ⟨_, rfl, rfl, -, -⟩
        rfl

/-- What a key says of the value: it is the value, or the value goes on behind it. -/
theorem makeQueryKey_eq_some {value : Option (List χ)} {keylen : Nat} {key : List χ} {cut : Bool}
    (h : makeQueryKey value keylen = some (key, cut)) :
    ∃ rest, folded (value.getD []) = key ++ rest ∧ (cut = true ↔ rest ≠ []) ∧
      (cut = true → key.length = keylen - 1) ∧ key.length ≤ keylen - 1 := by
  cases value with
  | none => cases h
  | some v =>
    rw [makeQueryKey] at h
    simp only [take_unpadded, Option.getD_some] at h ⊢
    split at h
    · cases h
    · split at h
      · next hlen =>
        cases h
        have htake : v.take (keylen - 1) = (unpadded v).take (keylen - 1) := by
          conv_rhs => rw [← take_unpadded v, List.take_take, Nat.min_eq_left (by omega)]
        rw [htake, folded]
        refine ⟨((unpadded v).drop (keylen - 1)).map HostChar.toupper, ?_, ?_, ?_, ?_⟩
        · rw [← List.map_append, List.take_append_drop]
        · refine iff_of_true rfl ?_
          rw [ne_eq, List.map_eq_nil_iff, List.drop_eq_nil_iff]
          omega
        · intro _
          rw [List.length_map, List.length_take]
          omega
        · rw [List.length_map, List.length_take]
          omega
      · next hlen =>
        cases h
        refine ⟨[], (List.append_nil _).symm, iff_of_false nofun (fun h => h rfl), nofun, ?_⟩
        rw [List.length_map]
        omega

theorem makeQueryKey_eq_none_iff {value : Option (List χ)} {keylen : Nat} :
    makeQueryKey value keylen = none ↔ folded (value.getD []) = [] := by
  cases value with
  | none => exact iff_of_true rfl rfl
  | some v =>
    rw [Option.getD_some, ← length_eq_zero_iff_folded]
    unfold makeQueryKey
    dsimp only
    split
    · next h0 => exact iff_of_true rfl h0
    · next h0 => split <;> exact iff_of_false nofun h0

end

end Mvsmf
