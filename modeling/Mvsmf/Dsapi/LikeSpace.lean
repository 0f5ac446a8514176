import Mvsmf.Dsapi.Allocate
import Mathlib

/-!
# The space of a data set made like another

Unit, primary and secondary each come from the request or from the model, and one unit goes out for
both quantities.
-/

namespace Mvsmf

def MAX_INT : Int := 2 ^ 31 - 1

/-- `X'40'` of the unit bits: the secondary counts in blocks. -/
def BLK : UInt8 := 0x40

/-- The secondary of a model in tracks, where a track has `tpc` to the cylinder and holds `bpt` of
its blocks. -/
def Dscb1.secondaryTracks (d : Dscb1) (tpc bpt : Nat) : Nat :=
  if d.scal1 &&& SCAL1_UNIT = CYL then d.secondary * tpc
  else if d.scal1 &&& SCAL1_UNIT = BLK then (d.secondary + bpt - 1) / bpt
  else d.secondary

/-- A quantity of the request goes out in the unit of the request; the primary of the model covers
its extents, and its secondary is as many tracks as it has. -/
structure Modelled (f : BodyFields) (d : Dscb1) (slots : List (List UInt8)) (tpc bpt : Nat)
    (a : Alloc) : Prop where
  primary_given : ∀ p, f.primary = some p → a.unit = f.unit ∧ a.primary = p
  secondary_given : ∀ s, f.secondary = some s → a.unit = f.unit ∧ a.secondary = s
  primary_taken : f.primary = none → a.unit = "TRK".toList ∧ space tpc slots ≤ a.primary
  secondary_taken : f.secondary = none →
    a.secondary = if a.unit = "TRK".toList then (d.secondaryTracks tpc bpt : Int) else 0

/-- The unit that goes out for a secondary of the request is its own, a quantity fits an `int`, and a
secondary of the model that counts in blocks is the same in tracks. -/
structure Convertible (f : BodyFields) (d : Dscb1) (slots : List (List UInt8)) (tpc bpt : Nat) :
    Prop where
  primary : ∀ p, f.primary = some p → 0 < p
  unit : f.primary = none → f.secondary ≠ none → f.unit = "TRK".toList
  extents : f.primary = none → space tpc slots ≤ MAX_INT
  cylinders : f.secondary = none → (f.primary = none ∨ f.unit = "TRK".toList) →
    d.scal1 &&& SCAL1_UNIT = CYL → ((d.secondary * tpc : Nat) : Int) ≤ MAX_INT
  blocks : f.secondary = none → (f.primary = none ∨ f.unit = "TRK".toList) →
    d.scal1 &&& SCAL1_UNIT = BLK → d.secondary ≤ 1 ∨ bpt = 1

theorem secondary_lt (d : Dscb1) : d.secondary < 2 ^ 24 := by
  have := d.scal3.1.toNat_lt
  have := d.scal3.2.1.toNat_lt
  have := d.scal3.2.2.toNat_lt
  rw [Dscb1.secondary]
  omega

theorem toNat_ofInt (z : Int) : (UInt32.ofInt z).toNat = (z % 2 ^ 32).toNat := by
  have := Int.emod_lt_of_pos z (show (0 : Int) < 2 ^ 32 by decide)
  rw [UInt32.ofInt, UInt32.toNat_ofNat']
  omega

theorem asInt_ofInt (z : Int) : asInt (UInt32.ofInt z) = z.bmod (2 ^ 32) := by
  rw [asInt, toNat_ofInt, Int.bmod_def]
  split <;> split <;> omega

/-- What an `int` shows of a count that is no less than 0: the count, if it has room for it. -/
theorem asInt_eq_iff {n : Nat} : asInt (UInt32.ofInt n) = n ↔ (n : Int) ≤ MAX_INT := by
  rw [asInt_ofInt, Int.bmod_def, MAX_INT]
  split <;> omega

theorem ofInt_eq_zero_iff {z : Int} : UInt32.ofInt z = 0 ↔ z % 2 ^ 32 = 0 := by
  rw [← UInt32.toNat_inj, toNat_ofInt, UInt32.toNat_zero]
  have := Int.emod_nonneg z (show (2 : Int) ^ 32 ≠ 0 by decide)
  omega

/-- The primary of a model is at least 1, and it covers what an `int` has room for. -/
theorem covers_iff {z : Int} {mpri : UInt32}
    (h : mpri = if UInt32.ofInt z ≠ 0 then UInt32.ofInt z else 1) :
    (z ≤ if asInt mpri ≤ 0 then 1 else asInt mpri) ↔ z ≤ MAX_INT := by
  by_cases hz : UInt32.ofInt z = 0
  · rw [if_neg (not_not.mpr hz)] at h
    subst h
    have := ofInt_eq_zero_iff.mp hz
    rw [show asInt 1 = 1 from rfl, if_neg (by decide), MAX_INT]
    omega
  · rw [if_pos hz] at h
    subst h
    rw [asInt_ofInt, Int.bmod_def, MAX_INT]
    split <;> split <;> omega

theorem blocks_iff {sec bpt : Nat} (hbpt : 0 < bpt) :
    (sec + bpt - 1) / bpt = sec ↔ sec ≤ 1 ∨ bpt = 1 := by
  constructor
  · intro h
    by_contra hne
    obtain ⟨s, rfl⟩ : ∃ s, sec = s + 2 := ⟨sec - 2, by omega⟩
    obtain ⟨b, rfl⟩ : ∃ b, bpt = b + 2 := ⟨bpt - 2, by omega⟩
    have hlt : s + 2 + (b + 2) - 1 < (s + 2) * (b + 2) := by
      have : (s + 2) * (b + 2) = s * b + 2 * s + 2 * b + 4 := by ring
      omega
    exact absurd h (Nat.ne_of_lt (Nat.div_lt_of_lt_mul (Nat.mul_comm _ _ ▸ hlt)))
  · rintro (h | rfl)
    · rcases Nat.le_one_iff_eq_zero_or_eq_one.mp h with rfl | rfl
      · exact Nat.div_eq_of_lt (by omega)
      · rw [Nat.add_comm, Nat.add_sub_cancel, Nat.div_self hbpt]
    · rw [Nat.add_sub_cancel, Nat.div_one]

/-! ## The merge -/

section

variable {v : Vtoc} {like : List Char} {vol : Volser} {d : Dscb1} {slots : List (List UInt8)}

/-- The secondary in tracks as `model_alloc` has it. -/
def Dscb1.allocSecondary (d : Dscb1) (tpc : Nat) : Nat :=
  if d.scal1 &&& SCAL1_UNIT = CYL then d.secondary * tpc else d.secondary

theorem allocSecondary_eq (d : Dscb1) (tpc : UInt32) :
    (if d.scal1 &&& SCAL1_UNIT = CYL then UInt32.ofNat d.secondary * tpc
      else UInt32.ofNat d.secondary) = UInt32.ofInt (d.allocSecondary tpc.toNat) := by
  rw [Dscb1.allocSecondary]
  split
  · rw [Nat.cast_mul, UInt32.ofInt_mul, ofInt_natCast, ofInt_natCast, UInt32.ofNat_toNat]
  · rw [ofInt_natCast]

theorem modelAlloc_eq (hlocate : v.locate (dsn44 like) = some vol)
    (hdscb : v.dscbdv (dsn44 like) vol = some d) (hslots : d.slots (v.dscbav · vol) = some slots) :
    modelAlloc v like =
      some (if UInt32.ofInt (space (volTpc v vol).toNat slots) ≠ 0
        then UInt32.ofInt (space (volTpc v vol).toNat slots) else 1,
        UInt32.ofInt (d.allocSecondary (volTpc v vol).toNat)) := by
  have htracks := dscbAllocTracks_eq d (volTpc v vol) (v.dscbav · vol)
  rw [hslots, Option.map_some] at htracks
  simp only [modelAlloc, hlocate, hdscb]
  cases hd : dscbAllocTracks d.extent d.ptrds d.noepv.toNat (volTpc v vol) (v.dscbav · vol) with
  | error e =>
    rw [hd] at htracks
    cases htracks
  | ok trks =>
    rw [hd] at htracks
    cases htracks
    dsimp only
    rw [allocSecondary_eq]

/-- Unit, primary and secondary of an allocation whose model can be read. -/
theorem ofModel_space {f : BodyFields} {mpri msec : UInt32} (hpos : mpri > 0)
    (h : modelAlloc v like = some (mpri, msec)) :
    let a := Alloc.ofModel v like f
    (a.unit = if f.primary = none then "TRK".toList else f.unit) ∧
      (a.primary = if f.primary.getD (asInt mpri) ≤ 0 then 1 else f.primary.getD (asInt mpri)) ∧
      a.secondary = if f.secondary = none ∧ a.unit = "TRK".toList then asInt msec
        else f.secondary.getD 0 := by
  dsimp only
  rw [Alloc.ofModel, h]
  simp only [Alloc.directory_unit, Alloc.directory_primary, Alloc.directory_secondary,
    Alloc.atLeastOne_unit, Alloc.atLeastOne_primary, Alloc.atLeastOne_secondary,
    Alloc.fill_secondary, Alloc.fill_unit, Alloc.fill_primary, hpos, and_true,
    Option.isNone_iff_eq_none]
  refine ⟨rfl, ?_, rfl⟩
  change (if (if f.primary = none then asInt mpri else f.primary.getD 0) ≤ 0 then 1
    else if f.primary = none then asInt mpri else f.primary.getD 0) = _
  cases f.primary <;> rfl

theorem allocSecondary_iff (d : Dscb1) (tpc : Nat) {bpt : Nat} (hbpt : 0 < bpt) :
    asInt (UInt32.ofInt (d.allocSecondary tpc)) = d.secondaryTracks tpc bpt ↔
      (d.scal1 &&& SCAL1_UNIT = CYL → ((d.secondary * tpc : Nat) : Int) ≤ MAX_INT) ∧
        (d.scal1 &&& SCAL1_UNIT = BLK → d.secondary ≤ 1 ∨ bpt = 1) := by
  rw [Dscb1.allocSecondary, Dscb1.secondaryTracks]
  by_cases hcyl : d.scal1 &&& SCAL1_UNIT = CYL
  · have hblk : ¬ d.scal1 &&& SCAL1_UNIT = BLK := by
      rw [hcyl]
      decide
    rw [if_pos hcyl, if_pos hcyl, asInt_eq_iff]
    exact ⟨fun h => ⟨fun _ => h, fun h' => absurd h' hblk⟩, fun h => h.1 hcyl⟩
  · have hfits : asInt (UInt32.ofInt (d.secondary : Int)) = d.secondary := by
      have := secondary_lt d
      rw [asInt_eq_iff, MAX_INT]
      omega
    rw [if_neg hcyl, if_neg hcyl, hfits, Int.natCast_inj]
    refine Iff.trans ?_ (and_iff_right fun h => absurd h hcyl).symm
    by_cases hblk : d.scal1 &&& SCAL1_UNIT = BLK
    · rw [if_pos hblk, eq_comm, blocks_iff hbpt]
      exact ⟨fun h _ => h, fun h => h hblk⟩
    · rw [if_neg hblk]
      exact iff_of_true rfl fun h => absurd h hblk

theorem modelled_iff {f : BodyFields} {bpt : Nat} (hbpt : 0 < bpt)
    (hlocate : v.locate (dsn44 like) = some vol) (hdscb : v.dscbdv (dsn44 like) vol = some d)
    (hslots : d.slots (v.dscbav · vol) = some slots) :
    Modelled f d slots (volTpc v vol).toNat bpt (.ofModel v like f) ↔
      Convertible f d slots (volTpc v vol).toNat bpt := by
  generalize hmpri : (if UInt32.ofInt (space (volTpc v vol).toNat slots) ≠ 0
    then UInt32.ofInt (space (volTpc v vol).toNat slots) else 1) = mpri
  have halloc := modelAlloc_eq hlocate hdscb hslots
  rw [hmpri] at halloc
  have hpos : mpri > 0 := by
    rw [gt_iff_lt, UInt32.pos_iff_ne_zero, ← hmpri]
    split
    · assumption
    · decide
  obtain ⟨hunit, hprimary, hsecondary⟩ := @ofModel_space v like f _ _ hpos halloc
  generalize Alloc.ofModel v like f = a at hunit hprimary hsecondary ⊢
  have htrk : a.unit = "TRK".toList ↔ f.primary = none ∨ f.unit = "TRK".toList := by
    rw [hunit]
    split
    · next h => exact iff_of_true rfl (.inl h)
    · next h => exact (or_iff_right h).symm
  have hcover (hp : f.primary = none) :
      space (volTpc v vol).toNat slots ≤ a.primary ↔
        space (volTpc v vol).toNat slots ≤ MAX_INT := by
    rw [hprimary, hp, Option.getD_none]
    exact covers_iff hmpri.symm
  have htracks (hs : f.secondary = none) (hu : a.unit = "TRK".toList) :
      a.secondary = d.secondaryTracks (volTpc v vol).toNat bpt ↔
        (d.scal1 &&& SCAL1_UNIT = CYL →
            ((d.secondary * (volTpc v vol).toNat : Nat) : Int) ≤ MAX_INT) ∧
          (d.scal1 &&& SCAL1_UNIT = BLK → d.secondary ≤ 1 ∨ bpt = 1) := by
    rw [hsecondary, if_pos ⟨hs, hu⟩]
    exact allocSecondary_iff d _ hbpt
  have hprimary' (p : Int) (hp : f.primary = some p) : a.primary = p ↔ 0 < p := by
    rw [hprimary, hp, Option.getD_some]
    split <;> omega
  constructor
  · rintro ⟨hgiven, hgiven', htaken, htaken'⟩
    have htaken' (hs : f.secondary = none) (hu : f.primary = none ∨ f.unit = "TRK".toList) :=
      (htracks hs (htrk.mpr hu)).mp ((htaken' hs).trans (if_pos (htrk.mpr hu)))
    refine ⟨fun p hp => (hprimary' p hp).mp (hgiven p hp).2, fun hp hs => ?_,
      fun hp => (hcover hp).mp (htaken hp).2, fun hs hu => (htaken' hs hu).1,
      fun hs hu => (htaken' hs hu).2⟩
    obtain ⟨s, hs⟩ := Option.ne_none_iff_exists'.mp hs
    exact (hgiven' s hs).1.symm.trans (hunit.trans (if_pos hp))
  · rintro ⟨hp, hu, he, hc, hb⟩
    refine ⟨fun p hp' => ⟨?_, (hprimary' p hp').mpr (hp p hp')⟩, fun s hs => ⟨?_, ?_⟩,
      fun hp' => ⟨htrk.mpr (.inl hp'), (hcover hp').mpr (he hp')⟩, fun hs => ?_⟩
    · rw [hunit, if_neg (by rw [hp']; exact Option.some_ne_none p)]
    · rw [hunit]
      split
      · next hp' => exact (hu hp' (by rw [hs]; exact Option.some_ne_none s)).symm
      · rfl
    · rw [hsecondary, if_neg (by rw [hs]; exact fun h => Option.some_ne_none s h.1), hs]
      rfl
    · split
      · next hu' =>
        exact (htracks hs hu').mpr ⟨hc hs (htrk.mp hu'), hb hs (htrk.mp hu')⟩
      · next hu' => rw [hsecondary, if_neg (fun h => hu' h.2), hs]; rfl

/-- A create with a model that can be read goes on to an allocation, and that keeps to the units
exactly where the secondary of the request has its own and the others fit. -/
theorem createAlloc_modelled {body val : List Char} {bpt : Nat} (hbpt : 0 < bpt)
    (hval : extractInto body "like" JSON_VAL = some val)
    (hname : normalizeDsn (some val) (MAX_DATASET_NAME + 1) = some like)
    (hlocate : v.locate (dsn44 like) = some vol) (hdscb : v.dscbdv (dsn44 like) vol = some d)
    (hslots : d.slots (v.dscbav · vol) = some slots) :
    ∃ a, createAlloc v body = .ok a ∧
      (Modelled (.read body) d slots (volTpc v vol).toNat bpt a ↔
        Convertible (.read body) d slots (volTpc v vol).toNat bpt) := by
  refine ⟨.ofModel v like (.read body), ?_, modelled_iff hbpt hlocate hdscb hslots⟩
  have hcataloged : datasetCataloged v like = true := by
    rw [datasetCataloged, hlocate, Option.isSome_some]
  simp only [createAlloc, hval, hname, hcataloged, if_true]

end

/-- One extent of a cylinder, on a volume with 15 tracks to the cylinder; the secondary is 3
tracks. -/
def trackModel : Dscb1 where
  extent := [0x81, 0, 0, 1, 0, 0, 0, 1, 0, 14]
  ptrds := [0, 0, 0, 0, 0]
  noepv := 1
  dsorg1 := 0x40
  scal1 := 0x80
  scal3 := (0, 0, 3)

def trackVtoc : Vtoc where
  locate _ := some []
  dscbdv _ _ := some trackModel
  dscbv _ := some 15
  dscbav _ _ := none

def copyRequest : List Char := "\x7b\"like\":\"A.MODEL\",\"blksize\":800\x7d".toList

theorem createAlloc_modelled_copy :
    ∃ a, createAlloc trackVtoc copyRequest = .ok a ∧
      (Modelled (.read copyRequest) trackModel [trackModel.extent] (volTpc trackVtoc []).toNat 1 a ↔
        Convertible (.read copyRequest) trackModel [trackModel.extent]
          (volTpc trackVtoc []).toNat 1) :=
  @createAlloc_modelled trackVtoc "A.MODEL".toList [] trackModel [trackModel.extent] copyRequest
    "A.MODEL".toList 1 (by decide) (by decide +kernel) (by decide +kernel) rfl rfl rfl

def cylinderRequest : List Char :=
  "\x7b\"like\":\"A.MODEL\",\"alcunit\":\"CYL\",\"secondary\":5\x7d".toList

/-- A secondary of 5 cylinders goes out as one of 5 tracks. -/
theorem secondary_reinterpreted :
    ∃ a, createAlloc trackVtoc cylinderRequest = .ok a ∧
      ¬ Modelled (.read cylinderRequest) trackModel [trackModel.extent]
        (volTpc trackVtoc []).toNat 1 a := by
  have hval : extractInto cylinderRequest "like" JSON_VAL = some "A.MODEL".toList := by
    decide +kernel
  have hname : normalizeDsn (some "A.MODEL".toList) (MAX_DATASET_NAME + 1) =
      some "A.MODEL".toList := by
    decide +kernel
  have hcataloged : datasetCataloged trackVtoc "A.MODEL".toList = true := rfl
  refine ⟨.ofModel trackVtoc "A.MODEL".toList (.read cylinderRequest), ?_, fun h => ?_⟩
  · simp only [createAlloc, hval, hname, hcataloged, if_true]
  · have hsecondary : (BodyFields.read cylinderRequest).secondary = some 5 := by decide +kernel
    exact absurd (h.secondary_given 5 hsecondary).1 (by decide +kernel)

end Mvsmf
