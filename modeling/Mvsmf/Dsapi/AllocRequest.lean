import Mvsmf.Dsapi.AllocOptions
import Mvsmf.Lib.JsonVerbatim

/-!
# The request of an allocation

What a body asks for is what its members say. The handler goes by what stands at the first place of
each name, so the two come to one allocation only where that is the member, or makes no difference;
and the option string has just the fields of that allocation only where no value brings a semicolon.
-/

namespace Mvsmf

open Json CLib

/-! ## What is asked for -/

/-- The last member of the name. -/
def lastMember (ms : List (List Nat × Value)) (key : String) : Option Value :=
  ms.reverse.lookup (units key.toList)

/-- A string asks for its text; another value, or none, asks for nothing. -/
def AsksText (ms : List (List Nat × Value)) (key : String) (text : Option (List Char)) : Prop :=
  match lastMember ms key with
  | some (.str us) => ∃ t, text = some t ∧ units t = us
  | _ => text = none

/-- A number asks for its value, which is to be an integer. -/
def AsksNumber (ms : List (List Nat × Value)) (key : String) (n : Option Int) : Prop :=
  match lastMember ms key with
  | some (.num mantissa exponent) => ∃ i : Int, n = some i ∧ (i : ℚ) = mantissa * (10 : ℚ) ^ exponent
  | _ => n = none

/-- The members of a body ask for this model and these attributes. -/
structure AsksAttributes (ms : List (List Nat × Value)) (like : Option (List Char)) (q : BodyFields) :
    Prop where
  like : AsksText ms "like" like
  dsorg : AsksText ms "dsorg" q.dsorg
  recfm : AsksText ms "recfm" q.recfm
  alcunit : AsksText ms "alcunit" q.alcunit
  lrecl : AsksNumber ms "lrecl" q.lrecl
  blksize : AsksNumber ms "blksize" q.blksize
  primary : AsksNumber ms "primary" q.primary
  secondary : AsksNumber ms "secondary" q.secondary
  dirblk : AsksNumber ms "dirblk" q.dirblk

/-! ## What is seen -/

/-- The text between the quotes behind the first place of a name, as far as the buffer holds it. -/
def FirstText (body : List Char) (key : String) (size : Nat) : Option (List Char) → Prop
  | some kept => ∃ text rest,
      FirstField (searchText key.toList) body ('"' :: (text ++ '"' :: rest)) ∧ '"' ∉ text ∧
        kept = text.take (size - 1)
  | none => ∀ text rest,
      ¬ FirstField (searchText key.toList) body ('"' :: (text ++ '"' :: rest))

/-- The digits behind the first place of a name, as a number up to the largest `int`. -/
def FirstNumber (body : List Char) (key : String) : Option Int → Prop
  | some n => ∃ ds rest, FirstField (searchText key.toList) body (ds ++ rest) ∧ ds ≠ [] ∧
      (∀ c ∈ ds, CLib.isDigit 10 c = true) ∧ (∀ c ∈ rest.head?, CLib.isDigit 10 c = false) ∧
        n = min LONG_MAX (numeral 10 ds)
  | none => ∀ c rest, CLib.isDigit 10 c = true →
      ¬ FirstField (searchText key.toList) body (c :: rest)

/-- The model and the attributes at the first places of their names. -/
structure Seen (body : List Char) (like : Option (List Char)) (s : BodyFields) : Prop where
  like : FirstText body "like" JSON_VAL like
  dsorg : FirstText body "dsorg" ATTR_SIZE s.dsorg
  recfm : FirstText body "recfm" ATTR_SIZE s.recfm
  alcunit : FirstText body "alcunit" ATTR_SIZE s.alcunit
  lrecl : FirstNumber body "lrecl" s.lrecl
  blksize : FirstNumber body "blksize" s.blksize
  primary : FirstNumber body "primary" s.primary
  secondary : FirstNumber body "secondary" s.secondary
  dirblk : FirstNumber body "dirblk" s.dirblk

theorem firstText_iff {body : List Char} {key : String} {size : Nat} (hsize : 0 < size)
    {o : Option (List Char)} : FirstText body key size o ↔ extractInto body key size = o := by
  rw [extractInto_eq body key hsize, askedText, Option.map_map]
  cases hq : quotedValue (searchText key.toList) body with
  | none =>
    have hno : ∀ text rest,
        ¬ FirstField (searchText key.toList) body ('"' :: (text ++ '"' :: rest)) := by
      intro text rest hfirst
      rw [quotedValue, fieldValue_quote_iff.mpr hfirst] at hq
      change (if '"' ∈ text ++ '"' :: rest then _ else _) = _ at hq
      rw [if_pos (by simp)] at hq
      cases hq
    cases o with
    | none => exact iff_of_true hno rfl
    | some kept =>
      refine iff_of_false ?_ fun h => Option.some_ne_none kept h.symm
      rintro ⟨text, rest, hfirst, -⟩
      exact hno text rest hfirst
  | some found =>
    obtain ⟨val, len⟩ := found
    obtain ⟨text, rest, hfirst, htext, rfl, rfl⟩ := quotedValue_eq_some_iff.mp hq
    have htake : (text ++ '"' :: rest).take text.length = text := List.take_left
    cases o with
    | none =>
      refine iff_of_false (fun hno => hno text rest hfirst) ?_
      exact fun h => Option.some_ne_none _ h
    | some kept =>
      simp only [Option.map_some, Function.comp, htake, Option.some.injEq]
      constructor
      · rintro ⟨text', rest', hfirst', htext', rfl⟩
        have hq' := quotedValue_eq_some_iff.mpr
          ⟨text', rest', hfirst', htext', rfl, rfl⟩
        rw [hq, Option.some.injEq, Prod.mk.injEq] at hq'
        rw [← htake, hq'.1, hq'.2, List.take_left]
      · rintro rfl
        exact ⟨text, rest, hfirst, htext, rfl⟩

theorem isDigit_ten {c : Char} : CLib.isDigit 10 c = true ↔ '0' ≤ c ∧ c ≤ '9' := by
  unfold CLib.isDigit digitVal
  split
  · next d hd =>
    split at hd
    · next h =>
      refine iff_of_true (decide_eq_true ?_) h
      have := Option.some.inj hd
      have h9 : c.toNat ≤ 57 := h.2
      omega
    · next h =>
      refine iff_of_false ?_ h
      rw [decide_eq_true_iff]
      split at hd
      · next h' =>
        have := Option.some.inj hd
        have h97 : 97 ≤ c.toNat := h'.1
        omega
      · split at hd
        · next h' =>
          have := Option.some.inj hd
          have h65 : 65 ≤ c.toNat := h'.1
          omega
        · cases hd
  · next hd =>
    refine iff_of_false Bool.false_ne_true fun h => ?_
    rw [if_pos h] at hd
    cases hd

/-- Digits are read as far as they go. -/
theorem atoi_digits {ds rest : List Char} (h0 : ds ≠ [])
    (hd : ∀ c ∈ ds, CLib.isDigit 10 c = true) (hr : ∀ c ∈ rest.head?, CLib.isDigit 10 c = false) :
    atoi (ds ++ rest) = min LONG_MAX (numeral 10 ds) := by
  obtain ⟨c, ds', rfl⟩ := List.exists_cons_of_ne_nil h0
  have hc := hd c List.mem_cons_self
  have hspace : (c :: ds' ++ rest).dropWhile isspace = c :: ds' ++ rest := by
    rw [List.cons_append, List.dropWhile_cons_of_neg (by simp [isspace_of_isDigit hc])]
  have hsign : sign (c :: ds' ++ rest) = (false, c :: ds' ++ rest) := sign_of_isDigit hc
  rw [atoi, strtol, hspace, hsign]
  dsimp only
  rw [(takeWhile_digits hd hr).1, if_neg h0]
  rfl

theorem firstNumber_iff {body : List Char} {key : String} {o : Option Int} :
    FirstNumber body key o ↔ extractJsonInt body key = o := by
  have hblank {c : Char} (hc : CLib.isDigit 10 c = true) : c ≠ ' ' ∧ c ≠ '\t' := by
    refine ⟨?_, ?_⟩ <;>
      · rintro rfl
        revert hc
        decide
  have hread {c : Char} {rest : List Char} (hc : CLib.isDigit 10 c = true)
      (hfirst : FirstField (searchText key.toList) body (c :: rest)) :
      extractJsonInt body key = some (atoi (c :: rest)) := by
    unfold extractJsonInt
    rw [(fieldValue_cons_iff (hblank hc)).mpr hfirst]
    exact if_pos (isDigit_ten.mp hc)
  cases o with
  | some n =>
    constructor
    · rintro ⟨ds, rest, hfirst, h0, hd, hr, rfl⟩
      rw [← atoi_digits h0 hd hr]
      obtain ⟨c, ds', rfl⟩ := List.exists_cons_of_ne_nil h0
      exact hread (hd c List.mem_cons_self) hfirst
    · intro h
      unfold extractJsonInt at h
      split at h
      · next c pos hpos =>
        obtain ⟨hdigit, hn⟩ := Option.ite_none_right_eq_some.mp h
        have hc := isDigit_ten.mpr hdigit
        have hfirst := (fieldValue_cons_iff (hblank hc)).mp hpos
        have hsplit := List.takeWhile_append_dropWhile (p := CLib.isDigit 10) (l := c :: pos)
        have h0 : (c :: pos).takeWhile (CLib.isDigit 10) ≠ [] := by
          rw [List.takeWhile_cons_of_pos hc]
          exact List.cons_ne_nil _ _
        have hd : ∀ d ∈ (c :: pos).takeWhile (CLib.isDigit 10), CLib.isDigit 10 d = true :=
          fun d hd => List.mem_takeWhile_imp hd
        have hr : ∀ d ∈ ((c :: pos).dropWhile (CLib.isDigit 10)).head?,
            CLib.isDigit 10 d = false := by
          intro d hd
          have := List.head?_dropWhile_not (CLib.isDigit 10) (c :: pos)
          rw [Option.mem_def.mp hd] at this
          exact this
        refine ⟨_, _, hsplit.symm ▸ hfirst, h0, hd, hr, ?_⟩
        rw [← atoi_digits h0 hd hr, hsplit]
        exact (Option.some.inj hn).symm
      · cases h
  | none =>
    constructor
    · intro hno
      unfold extractJsonInt
      split
      · next c pos hpos =>
        refine if_neg fun hdigit => ?_
        have hc := isDigit_ten.mpr hdigit
        exact hno c pos hc ((fieldValue_cons_iff (hblank hc)).mp hpos)
      · rfl
    · intro h c rest hc hfirst
      rw [hread hc hfirst] at h
      cases h

/-- What is seen is what the extractors leave in the buffers. -/
theorem seen_iff {body : List Char} {like : Option (List Char)} {s : BodyFields} :
    Seen body like s ↔ extractInto body "like" JSON_VAL = like ∧ BodyFields.read body = s := by
  have htext {key : String} {o : Option (List Char)} :
      FirstText body key ATTR_SIZE o ↔ extractInto body key ATTR_SIZE = o :=
    firstText_iff (by decide)
  constructor
  · intro h
    refine ⟨(firstText_iff (by decide)).mp h.like, ?_⟩
    rw [BodyFields.read, htext.mp h.dsorg, htext.mp h.recfm, htext.mp h.alcunit,
      firstNumber_iff.mp h.lrecl, firstNumber_iff.mp h.blksize, firstNumber_iff.mp h.primary,
      firstNumber_iff.mp h.secondary, firstNumber_iff.mp h.dirblk]
  · rintro ⟨hlike, rfl⟩
    exact ⟨(firstText_iff (by decide)).mpr hlike, htext.mpr rfl, htext.mpr rfl, htext.mpr rfl,
      firstNumber_iff.mpr rfl, firstNumber_iff.mpr rfl, firstNumber_iff.mpr rfl,
      firstNumber_iff.mpr rfl, firstNumber_iff.mpr rfl⟩

/-! ## What a model supplies -/

/-- The primary a model has for a request without one, in tracks. -/
def suppliedPrimary (v : Vtoc) (like : Option (List Char)) : Option Int :=
  match like.bind (modelAlloc v) with
  | some (primary, _) => if primary > 0 then some (asInt primary) else none
  | none => none

/-- Its secondary, which is for the unit of tracks only. -/
def suppliedSecondary (v : Vtoc) (like : Option (List Char)) (unit : List Char) : Int :=
  match like.bind (modelAlloc v) with
  | some (_, secondary) => if unit = "TRK".toList then asInt secondary else 0
  | none => 0

/-- The directory blocks of a partitioned data set that is made like another. -/
def suppliedDirectory (v : Vtoc) (like : Option (List Char)) (dsorg : List Char) : Int :=
  match like with
  | some like => if targetIsPds v like dsorg then LIKE_DIRBLK else 0
  | none => 0

/-- With a model no primary is less than a track. -/
def leastPrimary (like : Option (List Char)) (n : Int) : Int :=
  if like.isSome ∧ n ≤ 0 then 1 else n

/-- The unit the quantities are in: tracks where the primary is the model's. -/
def BodyFields.unitInForce (s : BodyFields) (v : Vtoc) (like : Option (List Char)) : List Char :=
  if s.primary.isNone ∧ (suppliedPrimary v like).isSome then "TRK".toList else s.unit

/-- The allocation of attributes, with a model or without. -/
def BodyFields.allocation (s : BodyFields) (v : Vtoc) : Option (List Char) → Alloc
  | none => s.alone
  | some like => .ofModel v like s

/-- All but the space is the same. -/
def Alloc.SameData (a b : Alloc) : Prop :=
  a.like = b.like ∧ a.dsorg = b.dsorg ∧ a.recfm = b.recfm ∧ a.lrecl = b.lrecl ∧ a.blksize = b.blksize

section

variable (a : Alloc) (v : Vtoc) (like : List Char) (s : BodyFields)

theorem fill_data (space : Option (UInt32 × UInt32)) : (a.fill s space).SameData a := by
  unfold Alloc.fill
  split
  · exact ⟨rfl, rfl, rfl, rfl, rfl⟩
  · dsimp only
    split <;> split <;> exact ⟨rfl, rfl, rfl, rfl, rfl⟩

theorem atLeastOne_data : a.atLeastOne.SameData a := by
  unfold Alloc.atLeastOne
  split <;> exact ⟨rfl, rfl, rfl, rfl, rfl⟩

theorem directory_data : (a.directory v like s).SameData a := by
  unfold Alloc.directory
  split <;> exact ⟨rfl, rfl, rfl, rfl, rfl⟩

theorem fill_dirblk (space : Option (UInt32 × UInt32)) : (a.fill s space).dirblk = a.dirblk := by
  unfold Alloc.fill
  split
  · rfl
  · dsimp only
    split <;> split <;> rfl

theorem atLeastOne_dirblk : a.atLeastOne.dirblk = a.dirblk := by
  unfold Alloc.atLeastOne
  split <;> rfl

theorem directory_dirblk : (a.directory v like s).dirblk =
    if s.dirblk.isNone ∧ targetIsPds v like a.dsorg = true then LIKE_DIRBLK else a.dirblk := by
  unfold Alloc.directory
  split <;> rfl

theorem ofModel_data : (Alloc.ofModel v like s).SameData { s.alone with like := some like } := by
  have htrans {a b c : Alloc} (h : a.SameData b) (h' : b.SameData c) : a.SameData c :=
    ⟨h.1.trans h'.1, h.2.1.trans h'.2.1, h.2.2.1.trans h'.2.2.1, h.2.2.2.1.trans h'.2.2.2.1,
      h.2.2.2.2.trans h'.2.2.2.2⟩
  exact htrans (directory_data _ v like s) (htrans (atLeastOne_data _) (fill_data _ s _))

/-- The unit, the primary and the secondary of a model are the supplied ones. -/
theorem filled_space (hunit : a.unit = s.unit) (hprimary : a.primary = s.primary.getD 0)
    (hsecondary : a.secondary = s.secondary.getD 0) :
    (a.fill s (modelAlloc v like)).unit = s.unitInForce v (some like) ∧
      (a.fill s (modelAlloc v like)).primary =
        s.primary.getD ((suppliedPrimary v (some like)).getD 0) ∧
      (a.fill s (modelAlloc v like)).secondary =
        s.secondary.getD (suppliedSecondary v (some like) (s.unitInForce v (some like))) := by
  unfold BodyFields.unitInForce suppliedPrimary suppliedSecondary
  rw [Option.bind_some]
  cases modelAlloc v like with
  | none => simp [Alloc.fill, hunit, hprimary, hsecondary]
  | some space =>
    obtain ⟨mpri, msec⟩ := space
    have hforce : (a.fill s (some (mpri, msec))).unit =
        if s.primary.isNone ∧ mpri > 0 then "TRK".toList else s.unit := by
      rw [Alloc.fill_unit, hunit]
    have hsome : (if mpri > 0 then some (asInt mpri) else none).isSome = true ↔ mpri > 0 := by
      split <;> simp_all
    simp only [hsome]
    refine ⟨hforce, ?_, ?_⟩
    · rw [Alloc.fill_primary, hprimary]
      cases s.primary with
      | some n => rfl
      | none =>
        by_cases hmpri : mpri > 0
        · simp [hmpri]
        · simp [hmpri]
    · rw [Alloc.fill_secondary, hforce, hsecondary]
      cases s.secondary with
      | some n => rfl
      | none => simp

end

/-- The allocation of attributes, spelled out. -/
theorem allocation_eq (s : BodyFields) (v : Vtoc) (like : Option (List Char)) :
    s.allocation v like =
      { like := like
        dsorg := s.dsorg.getD []
        recfm := s.recfm.getD []
        lrecl := s.lrecl.getD 0
        blksize := s.blksize.getD 0
        unit := s.unitInForce v like
        primary := leastPrimary like (s.primary.getD ((suppliedPrimary v like).getD 0))
        secondary := s.secondary.getD (suppliedSecondary v like (s.unitInForce v like))
        dirblk := s.dirblk.getD (suppliedDirectory v like (s.dsorg.getD [])) } := by
  cases like with
  | none =>
    have hunit : s.unitInForce v none = s.unit := if_neg fun h => Bool.false_ne_true h.2
    have hprimary (n : Int) : leastPrimary none n = n := if_neg fun h => Bool.false_ne_true h.1
    rw [hunit, hprimary]
    rfl
  | some like =>
    obtain ⟨hlike, hdsorg, hrecfm, hlrecl, hblksize⟩ := ofModel_data v like s
    obtain ⟨hunit, hprimary, hsecondary⟩ := filled_space { s.alone with like := some like } v like s
      rfl rfl rfl
    rw [BodyFields.allocation]
    refine Alloc.ext hlike hdsorg hrecfm hlrecl hblksize ?_ ?_ ?_ ?_
    · rw [Alloc.ofModel, Alloc.directory_unit, Alloc.atLeastOne_unit, hunit]
    · rw [Alloc.ofModel, Alloc.directory_primary, Alloc.atLeastOne_primary, hprimary]
      simp [leastPrimary]
    · rw [Alloc.ofModel, Alloc.directory_secondary, Alloc.atLeastOne_secondary, hsecondary]
    · have horg := (atLeastOne_data _).2.1.trans
        (fill_data { s.alone with like := some like } s (modelAlloc v like)).2.1
      rw [Alloc.ofModel, directory_dirblk, horg, atLeastOne_dirblk, fill_dirblk, suppliedDirectory]
      change (if s.dirblk.isNone ∧ targetIsPds v like (s.dsorg.getD []) = true then LIKE_DIRBLK
        else s.dirblk.getD 0) = _
      cases s.dirblk with
      | none => simp
      | some n => rfl

theorem createAlloc_eq {v : Vtoc} {body : List Char} {a : Alloc}
    (h : createAlloc v body = .ok a) :
    a = (BodyFields.read body).allocation v ((extractInto body "like" JSON_VAL).map folded) := by
  unfold createAlloc at h
  dsimp only at h
  split at h
  · next hnone =>
    rw [hnone]
    split at h
    · cases h
      rfl
    · cases h
  · next val hval =>
    rw [hval]
    split at h
    · cases h
    · next like hlike =>
      obtain ⟨w, hw, rfl, -⟩ := normalizeDsn_eq_some_iff.mp hlike
      cases hw
      split at h
      · cases h
        rfl
      · cases h

/-! ## What comes of it -/

/-- An allocation meets a request: it has the values that are asked for, and for those left out what
goes without a model or what the model supplies. The unit may be another than the one asked for where
no quantity is given in it. -/
structure Alloc.Meets (a : Alloc) (v : Vtoc) (model : Option (List Char)) (q : BodyFields) :
    Prop where
  like : a.like = model.map folded
  dsorg : a.dsorg = q.dsorg.getD []
  recfm : a.recfm = q.recfm.getD []
  lrecl : a.lrecl = q.lrecl.getD 0
  blksize : a.blksize = q.blksize.getD 0
  unit : a.unit = q.unit ∨
    model.isSome ∧ a.unit = "TRK".toList ∧ q.primary = none ∧ q.secondary = none
  primary : a.primary =
    q.primary.getD (leastPrimary a.like ((suppliedPrimary v a.like).getD 0))
  secondary : a.secondary = q.secondary.getD (suppliedSecondary v a.like a.unit)
  dirblk : a.dirblk = q.dirblk.getD (suppliedDirectory v a.like a.dsorg)

/-- The options have the fields of the allocation, no value adding or cutting one; and the
allocation meets what the members of the body ask for. -/
def CreatedAsAsked (v : Vtoc) (url body opts : List Char) : Prop :=
  ∃ a, createAlloc v body = .ok a ∧ opts.splitOn ';' = a.fields (folded url) ∧
    ∃ ms like q, parse body = some (.obj ms) ∧ AsksAttributes ms like q ∧ a.Meets v like q

/-- What is seen is what is asked for, or makes no difference. -/
structure BodyFields.Agrees (s q : BodyFields) (v : Vtoc) (like : Option (List Char)) : Prop where
  dsorg : s.dsorg.getD [] = q.dsorg.getD []
  recfm : s.recfm.getD [] = q.recfm.getD []
  lrecl : s.lrecl.getD 0 = q.lrecl.getD 0
  blksize : s.blksize.getD 0 = q.blksize.getD 0
  unit : s.unitInForce v like = q.unit ∨
    like.isSome ∧ s.unitInForce v like = "TRK".toList ∧ q.primary = none ∧ q.secondary = none
  primary : leastPrimary like (s.primary.getD ((suppliedPrimary v like).getD 0)) =
    q.primary.getD (leastPrimary like ((suppliedPrimary v like).getD 0))
  secondary : s.secondary.getD (suppliedSecondary v like (s.unitInForce v like)) =
    q.secondary.getD (suppliedSecondary v like (s.unitInForce v like))
  dirblk : s.dirblk.getD (suppliedDirectory v like (s.dsorg.getD [])) =
    q.dirblk.getD (suppliedDirectory v like (s.dsorg.getD []))

/-- No semicolon stands in a name or an attribute that goes out. -/
structure BodyFields.NoSemicolon (s : BodyFields) (v : Vtoc) (model : Option (List Char))
    (url : List Char) : Prop where
  dsname : ';' ∉ folded url
  like : ∀ l, model = some l → ';' ∉ l
  dsorg : ';' ∉ s.dsorg.getD []
  recfm : ';' ∉ s.recfm.getD []
  unit : ';' ∉ s.unitInForce v model

/-- The body is an object, and what stands at the first places of the names is what its members ask
for and has no semicolon. -/
def AsksPlainly (v : Vtoc) (url body : List Char) : Prop :=
  ∃ ms like q seen s, parse body = some (.obj ms) ∧ AsksAttributes ms like q ∧ Seen body seen s ∧
    seen.map folded = like.map folded ∧ s.Agrees q v (like.map folded) ∧
    s.NoSemicolon v (like.map folded) url

theorem meets_iff {s q : BodyFields} {v : Vtoc} {seen like : Option (List Char)} :
    (s.allocation v (seen.map folded)).Meets v like q ↔
      seen.map folded = like.map folded ∧ s.Agrees q v (like.map folded) := by
  rw [allocation_eq]
  have hsome : (like.map folded).isSome = like.isSome := Option.isSome_map
  constructor
  · intro h
    have hlike : seen.map folded = like.map folded := h.like
    rw [hlike] at h
    exact ⟨hlike, h.dsorg, h.recfm, h.lrecl, h.blksize, hsome ▸ h.unit, h.primary, h.secondary,
      h.dirblk⟩
  · rintro ⟨hlike, h⟩
    rw [hlike]
    exact ⟨rfl, h.dsorg, h.recfm, h.lrecl, h.blksize, hsome ▸ h.unit, h.primary, h.secondary,
      h.dirblk⟩

/-- What an accepted request passes to the allocation service splits into the name of the URL and the
attributes it asks for exactly where it asks plainly. -/
theorem created_fields_iff {v : Vtoc} {dsalcf : List Char → Int} {url body opts : List Char}
    (h : (datasetCreateHandler v dsalcf (some url) body).opts = some opts) :
    CreatedAsAsked v url body opts ↔ AsksPlainly v url body := by
  obtain ⟨a, ha, rfl⟩ := handler_opts h
  have heq := createAlloc_eq ha
  constructor
  · rintro ⟨a', ha', hsplit, ms, like, q, hparse, hasks, hmeets⟩
    cases ha.symm.trans ha'
    obtain ⟨hname, hl, hd, hr, hu⟩ := fields_split_iff.mp hsplit
    rw [heq] at hmeets
    obtain ⟨hlike, hagrees⟩ := meets_iff.mp hmeets
    rw [heq, allocation_eq, hlike] at hl hd hr hu
    exact ⟨ms, like, q, _, _, hparse, hasks, seen_iff.mpr ⟨rfl, rfl⟩, hlike, hagrees,
      hname, hl, hd, hr, hu⟩
  · rintro ⟨ms, like, q, seen, s, hparse, hasks, hseen, hlike, hagrees, hno⟩
    obtain ⟨rfl, rfl⟩ := seen_iff.mp hseen
    refine ⟨a, ha, fields_split_iff.mpr ?_, ms, like, q, hparse, hasks, ?_⟩
    · rw [heq, allocation_eq, hlike]
      exact ⟨hno.dsname, hno.like, hno.dsorg, hno.recfm, hno.unit⟩
    · rw [heq]
      exact meets_iff.mpr ⟨hlike, hagrees⟩

def emptyVtoc : Vtoc := ⟨fun _ => none, fun _ _ => none, fun _ => none, fun _ _ => none⟩

def sequentialRequest : List Char :=
  ("\x7b\"dsorg\":\"PS\",\"recfm\":\"FB\",\"lrecl\":80,\"blksize\":3120,".toList ++
    "\"primary\":1,\"secondary\":1\x7d".toList)

def sequentialOpts : List Char :=
  ("DSN=MIKE.SEQ;DISP=(NEW,CATLG,DELETE);DSORG=PS;RECFM=FB;LRECL=80;BLKSIZE=3120;".toList ++
    "SPACE=TRK(1,1,0)".toList)

theorem created_fields_iff_sequential :
    CreatedAsAsked emptyVtoc "mike.seq".toList sequentialRequest sequentialOpts ↔
      AsksPlainly emptyVtoc "mike.seq".toList sequentialRequest :=
  @created_fields_iff emptyVtoc (fun _ => 0) "mike.seq".toList sequentialRequest sequentialOpts
    (by decide +kernel)

/-- A record format with a semicolon in it puts the data set on a volume. -/
def volumeRequest : List Char :=
  ("\x7b\"dsorg\":\"PS\",\"recfm\":\"F;VOL=A\",\"lrecl\":80,\"blksize\":3120,".toList ++
    "\"primary\":1\x7d".toList)

theorem record_format_adds_field :
    ∃ opts, (datasetCreateHandler emptyVtoc (fun _ => 0) (some "MIKE.SEQ".toList)
        volumeRequest).opts = some opts ∧
      ¬ CreatedAsAsked emptyVtoc "MIKE.SEQ".toList volumeRequest opts := by
  have hsome : ((datasetCreateHandler emptyVtoc (fun _ => 0) (some "MIKE.SEQ".toList)
      volumeRequest).opts).isSome = true := by
    decide +kernel
  obtain ⟨opts, hopts⟩ := Option.isSome_iff_exists.mp hsome
  refine ⟨opts, hopts, ?_⟩
  rintro ⟨a, ha, hsplit, -⟩
  obtain ⟨a', ha', rfl⟩ := handler_opts hopts
  cases ha.symm.trans ha'
  obtain ⟨-, -, -, hrecfm, -⟩ := fields_split_iff.mp hsplit
  rw [createAlloc_eq ha, allocation_eq] at hrecfm
  exact hrecfm (by decide +kernel)

end Mvsmf
