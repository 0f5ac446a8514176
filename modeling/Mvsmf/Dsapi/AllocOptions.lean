import Mvsmf.Dsapi.Allocate
import Mvsmf.Lib.Fields

/-!
# The options of an allocation

The string for `__dsalcf` has its fields between semicolons. Each is a keyword with a value, and the
values of names, RECFM, DSORG and the unit come from the request as they are.
-/

namespace Mvsmf

open CLib

/-! ## Fields -/

/-- The fields between the disposition and the space. -/
def Alloc.attributes (a : Alloc) : List (List Char) :=
  a.like.elim [] (fun like => [field "DCBDSN" like]) ++
  (if a.dsorg = [] then [] else [field "DSORG" a.dsorg]) ++
  (if a.recfm = [] then [] else [field "RECFM" a.recfm]) ++
  (if 0 < a.lrecl then [field "LRECL" (Json.decimal a.lrecl)] else []) ++
  (if 0 < a.blksize then [field "BLKSIZE" (Json.decimal a.blksize)] else [])

/-- The fields the string is meant to have. -/
def Alloc.fields (a : Alloc) (dsname : List Char) : List (List Char) :=
  field "DSN" dsname :: field "DISP" "(NEW,CATLG,DELETE)".toList ::
    (a.attributes ++ [field "SPACE" a.space])

/-- Each with a semicolon in front. -/
def optionFields (fs : List (List Char)) : List Char := fs.flatMap (';' :: ·)

theorem intercalate_eq (f : List Char) (fs : List (List Char)) :
    [';'].intercalate (f :: fs) = f ++ optionFields fs := by
  induction fs generalizing f with
  | nil => simp [optionFields]
  | cons g fs ih =>
    rw [List.intercalate_cons_cons, ih]
    simp [optionFields]

theorem separated_append (xs ys : List (List Char)) :
    optionFields (xs ++ ys) = optionFields xs ++ optionFields ys := List.flatMap_append

theorem separated_field (k : String) (value : List Char) :
    optionFields [field k value] = optionText k value := List.append_nil _

theorem head_eq (a : Alloc) (dsname : List Char) :
    a.head dsname = field "DSN" dsname ++ optionText "DISP" "(NEW,CATLG,DELETE)".toList ++
      optionFields a.attributes := by
  have hnil : optionFields [] = [] := rfl
  have hlike : optionFields (a.like.elim [] fun like => [field "DCBDSN" like]) =
      a.like.elim [] (optionText "DCBDSN") := by
    cases a.like with
    | none => rfl
    | some like => exact separated_field _ _
  rw [Alloc.head, Alloc.attributes]
  simp only [separated_append, hlike, apply_ite optionFields, hnil, separated_field,
    List.append_assoc]

theorem text_eq (a : Alloc) (dsname : List Char) :
    a.head dsname ++ optionText "SPACE" a.space = [';'].intercalate (a.fields dsname) := by
  have hcons (f : List Char) (fs : List (List Char)) :
      optionFields (f :: fs) = ';' :: (f ++ optionFields fs) := rfl
  rw [head_eq, Alloc.fields, intercalate_eq, hcons, separated_append, separated_field]
  simp only [optionText, List.append_assoc, List.cons_append]

/-! ## Nothing is cut -/

/-- The sizes of what goes into the string. -/
structure Alloc.Fits (a : Alloc) : Prop where
  like : ∀ l, a.like = some l → l.length ≤ MAX_DATASET_NAME
  dsorg : a.dsorg.length < ATTR_SIZE
  recfm : a.recfm.length < ATTR_SIZE
  unit : a.unit.length < ATTR_SIZE
  lrecl : a.lrecl.natAbs ≤ 2 ^ 31
  blksize : a.blksize.natAbs ≤ 2 ^ 31
  primary : a.primary.natAbs ≤ 2 ^ 31
  secondary : a.secondary.natAbs ≤ 2 ^ 31
  dirblk : a.dirblk.natAbs ≤ 2 ^ 31

theorem decimal_length_le {n : Int} (h : n.natAbs ≤ 2 ^ 31) : (Json.decimal n).length ≤ 11 := by
  have hdigits : (Nat.toDigits 10 n.natAbs).length ≤ 10 :=
    (Nat.length_toDigits_le_iff (by decide) (by decide)).mpr (by omega)
  rw [Json.decimal]
  split
  · rw [List.length_cons]
    omega
  · omega

theorem length_optionText (k : String) (value : List Char) :
    (optionText k value).length = k.toList.length + value.length + 2 := by
  rw [optionText, field, List.length_cons, List.length_append, List.length_cons]
  omega

theorem length_ite_le (c : Prop) [Decidable c] (xs ys : List Char) (n : Nat)
    (hx : xs.length ≤ n) (hy : ys.length ≤ n) : (if c then xs else ys).length ≤ n := by
  split
  · exact hx
  · exact hy

/-- The string has room in `opts`. -/
theorem Alloc.Fits.length_lt {a : Alloc} (h : a.Fits) {dsname : List Char}
    (hname : dsname.length ≤ MAX_DATASET_NAME) :
    (a.head dsname ++ optionText "SPACE" a.space).length < OPTS_SIZE := by
  have hlike : (a.like.elim [] (optionText "DCBDSN")).length ≤ 52 := by
    cases hl : a.like with
    | none => exact Nat.zero_le _
    | some l =>
      have := h.like l hl
      have hk : "DCBDSN".toList.length = 6 := by decide +kernel
      rw [MAX_DATASET_NAME] at this
      rw [Option.elim_some, length_optionText]
      omega
  have hsizes : "DSORG".toList.length = 5 ∧ "RECFM".toList.length = 5 ∧
      "LRECL".toList.length = 5 ∧ "BLKSIZE".toList.length = 7 ∧ "SPACE".toList.length = 5 ∧
      (field "DSN" []).length = 4 ∧
      (optionText "DISP" "(NEW,CATLG,DELETE)".toList).length = 24 := by
    decide +kernel
  obtain ⟨hdsorg, hrecfm, hlrecl, hblksize, hspace, hdsn, hdisp⟩ := hsizes
  have hnil (n : Nat) : ([] : List Char).length ≤ n := Nat.zero_le n
  have h₁ : (if a.dsorg = [] then [] else optionText "DSORG" a.dsorg).length ≤ 14 := by
    have := h.dsorg
    rw [ATTR_SIZE] at this
    exact length_ite_le _ _ _ _ (hnil _) (by rw [length_optionText]; omega)
  have h₂ : (if a.recfm = [] then [] else optionText "RECFM" a.recfm).length ≤ 14 := by
    have := h.recfm
    rw [ATTR_SIZE] at this
    exact length_ite_le _ _ _ _ (hnil _) (by rw [length_optionText]; omega)
  have h₃ : (if 0 < a.lrecl then optionText "LRECL" (Json.decimal a.lrecl) else []).length ≤
      18 := by
    have := decimal_length_le h.lrecl
    exact length_ite_le _ _ _ _ (by rw [length_optionText]; omega) (hnil _)
  have h₄ : (if 0 < a.blksize then optionText "BLKSIZE" (Json.decimal a.blksize) else []).length ≤
      20 := by
    have := decimal_length_le h.blksize
    exact length_ite_le _ _ _ _ (by rw [length_optionText]; omega) (hnil _)
  have h₅ : (optionText "SPACE" a.space).length ≤ 51 := by
    have := decimal_length_le h.primary
    have := decimal_length_le h.secondary
    have := decimal_length_le h.dirblk
    have := h.unit
    rw [ATTR_SIZE] at this
    rw [length_optionText, Alloc.space]
    simp only [List.length_append, List.length_cons, List.length_nil]
    omega
  have h₀ : (field "DSN" dsname).length ≤ 48 := by
    rw [field, List.length_append, List.length_cons] at hdsn ⊢
    rw [MAX_DATASET_NAME] at hname
    rw [List.length_nil] at hdsn
    omega
  rw [Alloc.head, OPTS_SIZE]
  simp only [List.length_append]
  omega

theorem extractInto_length {json text : List Char} {key : String} {outlen : Nat}
    (hout : 0 < outlen) (h : extractInto json key outlen = some text) : text.length < outlen := by
  obtain ⟨⟨val, len⟩, hval, rfl⟩ := Option.map_eq_some_iff.mp h
  obtain ⟨⟨val', len'⟩, -, heq⟩ := Option.map_eq_some_iff.mp hval
  cases heq
  rw [List.length_take, keptLen]
  split <;> omega

theorem atoi_natAbs (s : List Char) : (atoi s).natAbs ≤ 2 ^ 31 := by
  have hmax : LONG_MAX = 2 ^ 31 - 1 := by decide
  rw [atoi, strtol, hmax]
  dsimp only
  split
  · exact Nat.zero_le _
  · dsimp only
    split <;> omega

theorem extractJsonInt_natAbs {json : List Char} {key : String} :
    ((extractJsonInt json key).getD 0).natAbs ≤ 2 ^ 31 := by
  unfold extractJsonInt
  split
  · split
    · exact atoi_natAbs _
    · decide
  · decide

theorem asInt_natAbs (x : UInt32) : (asInt x).natAbs ≤ 2 ^ 31 := by
  have := x.toNat_lt
  rw [asInt]
  split <;> omega

theorem alone_fits (body : List Char) : (BodyFields.read body).alone.Fits := by
  have hattr (key : String) : ((extractInto body key ATTR_SIZE).getD []).length < ATTR_SIZE := by
    cases h : extractInto body key ATTR_SIZE with
    | none => decide
    | some text => exact extractInto_length (by decide) h
  have hunit : (BodyFields.read body).unit.length < ATTR_SIZE := by
    unfold BodyFields.unit
    split
    · decide +kernel
    · next u hu =>
      rw [List.length_map]
      exact extractInto_length (by decide) hu
  exact ⟨nofun, hattr _, hattr _, hunit, extractJsonInt_natAbs, extractJsonInt_natAbs,
    extractJsonInt_natAbs, extractJsonInt_natAbs, extractJsonInt_natAbs⟩

namespace Alloc.Fits

variable {a : Alloc}

theorem fill (h : a.Fits) (f : BodyFields) (space : Option (UInt32 × UInt32)) :
    (a.fill f space).Fits := by
  cases space with
  | none => exact h
  | some q =>
    obtain ⟨mpri, msec⟩ := q
    have htrk : "TRK".toList.length < ATTR_SIZE := by decide +kernel
    unfold Alloc.fill
    dsimp only
    split <;> split
    · exact { h with unit := htrk, primary := asInt_natAbs _, secondary := asInt_natAbs _ }
    · exact { h with unit := htrk, primary := asInt_natAbs _ }
    · exact { h with secondary := asInt_natAbs _ }
    · exact h

theorem atLeastOne (h : a.Fits) : a.atLeastOne.Fits := by
  unfold Alloc.atLeastOne
  split
  · exact { h with primary := show (1 : Int).natAbs ≤ 2 ^ 31 by decide }
  · exact h

theorem directory (h : a.Fits) (v : Vtoc) (like : List Char) (f : BodyFields) :
    (a.directory v like f).Fits := by
  unfold Alloc.directory
  split
  · exact { h with dirblk := show LIKE_DIRBLK.natAbs ≤ 2 ^ 31 by decide }
  · exact h

end Alloc.Fits

theorem normalizeDsn_length {value : Option (List Char)} {name : List Char}
    (h : normalizeDsn value (MAX_DATASET_NAME + 1) = some name) :
    name.length ≤ MAX_DATASET_NAME := by
  obtain ⟨w, -, rfl, -, hlen⟩ := normalizeDsn_eq_some_iff.mp h
  exact Nat.le_of_lt_succ hlen

theorem createAlloc_fits {v : Vtoc} {body : List Char} {a : Alloc}
    (h : createAlloc v body = .ok a) : a.Fits := by
  unfold createAlloc at h
  dsimp only at h
  split at h
  · split at h
    · cases h
      exact alone_fits body
    · cases h
  · split at h
    · cases h
    · next like hlike =>
      split at h
      · cases h
        have hset : ({ (BodyFields.read body).alone with like := some like } : Alloc).Fits := by
          refine { alone_fits body with like := fun l hl => ?_ }
          cases hl
          exact normalizeDsn_length hlike
        exact ((hset.fill _ _).atLeastOne).directory _ _ _
      · cases h

/-- What the handler passes on: the fields, with nothing cut off. -/
theorem handler_opts {v : Vtoc} {dsalcf : List Char → Int} {url body opts : List Char}
    (h : (datasetCreateHandler v dsalcf (some url) body).opts = some opts) :
    ∃ a, createAlloc v body = .ok a ∧ opts = [';'].intercalate (a.fields (folded url)) := by
  unfold datasetCreateHandler at h
  dsimp only at h
  split at h
  · cases h
  · next name hname =>
    split at h
    · cases h
    · next a ha =>
      have hlt := (createAlloc_fits ha).length_lt (normalizeDsn_length hname)
      have hhead : (a.head name).length < OPTS_SIZE := by
        rw [List.length_append] at hlt
        omega
      obtain ⟨w, hw, rfl, -⟩ := normalizeDsn_eq_some_iff.mp hname
      cases hw
      rw [Alloc.opts, if_neg (Nat.not_le.mpr hhead), List.take_of_length_le (by omega)] at h
      cases h
      exact ⟨a, ha, text_eq a _⟩

/-! ## Texts and semicolons -/

/-- The text between the quotes behind a name, in full. -/
def askedText (key : String) (body : List Char) : Option (List Char) :=
  (quotedValue (searchText key.toList) body).map fun (val, len) => val.take len

theorem extractInto_eq (json : List Char) (key : String) {outlen : Nat} (hout : 0 < outlen) :
    extractInto json key outlen = (askedText key json).map (·.take (outlen - 1)) := by
  rw [extractInto, extractJsonString, askedText, Option.map_map, Option.map_map]
  refine congrArg (Option.map · _) (funext fun (val, len) => ?_)
  dsimp only [Function.comp]
  rw [List.take_take, keptLen]
  split
  · rw [Nat.min_eq_left (by omega)]
  · rw [Nat.min_eq_right (by omega)]

/-- Numbers and keywords have no semicolon. -/
theorem semicolon_notMem_field_iff {k : String} (hk : ';' ∉ k.toList) {value : List Char} :
    ';' ∉ field k value ↔ ';' ∉ value := by
  rw [field, List.mem_append, List.mem_cons]
  simp [hk]

theorem semicolon_notMem_decimal (n : Int) : ';' ∉ Json.decimal n := fun h =>
  nomatch Json.decimal_word n _ h

theorem semicolon_notMem_space_iff {a : Alloc} : ';' ∉ a.space ↔ ';' ∉ a.unit := by
  simp [Alloc.space, semicolon_notMem_decimal]

theorem fields_semicolon_iff {a : Alloc} {dsname : List Char} :
    (∀ f ∈ a.fields dsname, ';' ∉ f) ↔
      ';' ∉ dsname ∧ (∀ l, a.like = some l → ';' ∉ l) ∧ ';' ∉ a.dsorg ∧ ';' ∉ a.recfm ∧
        ';' ∉ a.unit := by
  have hkeywords : ';' ∉ "DSN".toList ∧ ';' ∉ "DCBDSN".toList ∧ ';' ∉ "DSORG".toList ∧
      ';' ∉ "RECFM".toList ∧ ';' ∉ "LRECL".toList ∧ ';' ∉ "BLKSIZE".toList ∧
      ';' ∉ "SPACE".toList ∧ ';' ∉ field "DISP" "(NEW,CATLG,DELETE)".toList := by
    decide +kernel
  obtain ⟨hdsn, hdcbdsn, hdsorg, hrecfm, hlrecl, hblksize, hspace, hdisp⟩ := hkeywords
  have hoptional {k : String} (hk : ';' ∉ k.toList) (value : List Char) :
      (∀ f ∈ if value = [] then [] else [field k value], ';' ∉ f) ↔ ';' ∉ value := by
    split
    · next h => exact iff_of_true nofun (h ▸ List.not_mem_nil)
    · rw [List.forall_mem_singleton, semicolon_notMem_field_iff hk]
  have hnumber {k : String} (hk : ';' ∉ k.toList) (n : Int) :
      ∀ f ∈ if 0 < n then [field k (Json.decimal n)] else [], ';' ∉ f := by
    split
    · rw [List.forall_mem_singleton, semicolon_notMem_field_iff hk]
      exact semicolon_notMem_decimal n
    · exact nofun
  have hlike : (∀ f ∈ a.like.elim [] fun like => [field "DCBDSN" like], ';' ∉ f) ↔
      ∀ l, a.like = some l → ';' ∉ l := by
    cases a.like with
    | none => exact iff_of_true nofun nofun
    | some l =>
      rw [Option.elim_some, List.forall_mem_singleton, semicolon_notMem_field_iff hdcbdsn]
      exact ⟨fun h l' hl' => Option.some.inj hl' ▸ h, fun h => h l rfl⟩
  rw [Alloc.fields, Alloc.attributes, List.forall_mem_cons, List.forall_mem_cons,
    List.forall_mem_append, List.forall_mem_append, List.forall_mem_append, List.forall_mem_append,
    List.forall_mem_append, List.forall_mem_singleton, semicolon_notMem_field_iff hdsn,
    semicolon_notMem_field_iff hspace, semicolon_notMem_space_iff, hlike, hoptional hdsorg,
    hoptional hrecfm]
  constructor
  · rintro ⟨h, -, ⟨⟨⟨⟨hl, hd⟩, hr⟩, -⟩, -⟩, hu⟩
    exact ⟨h, hl, hd, hr, hu⟩
  · rintro ⟨h, hl, hd, hr, hu⟩
    exact ⟨h, hdisp, ⟨⟨⟨⟨hl, hd⟩, hr⟩, hnumber hlrecl _⟩, hnumber hblksize _⟩, hu⟩

/-- The string splits into the fields that were put together exactly where none of the names and
attributes has a semicolon. -/
theorem fields_split_iff {a : Alloc} {dsname : List Char} :
    ([';'].intercalate (a.fields dsname)).splitOn ';' = a.fields dsname ↔
      ';' ∉ dsname ∧ (∀ l, a.like = some l → ';' ∉ l) ∧ ';' ∉ a.dsorg ∧ ';' ∉ a.recfm ∧
        ';' ∉ a.unit := by
  have hne : a.fields dsname ≠ [] := List.cons_ne_nil _ _
  rw [List.splitOn_intercalate_eq_iff hne id, fields_semicolon_iff]
  exact and_iff_right rfl

end Mvsmf
