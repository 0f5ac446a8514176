import Mvsmf.Dsapi.Names
import Mathlib

/-!
# The space of a data set

`dscb_alloc_tracks` adds up the extents of a data set: three stand in its format-1 DSCB, the others
in the format-3 DSCBs chained to it. `model_alloc` makes the space of a new data set of it, and of
the secondary quantity, in tracks.
-/

namespace Mvsmf

/-! ## Extents -/

def DSX_EXTENT_LEN : Nat := 10
def DSX_F1_EXTENTS : Nat := 3
def DSX_PTR_LEN : Nat := 5
def DSX_F3_EXT4_OFF : Nat := 4
def DSX_F3_EXT4_CNT : Nat := 4
def DSX_F3_FMTID_OFF : Nat := 44
def DSX_F3_FMTID : UInt8 := 0xF3
def DSX_F3_EXT9_OFF : Nat := 45
def DSX_F3_EXT9_CNT : Nat := 9
def DSX_F3_PTR_OFF : Nat := 135
def DSX_MAX_F3 : Nat := 4

/-- What `dscb_alloc_tracks` returns where it sets no total. -/
inductive DsxError
  | read
  | chain
  | format
  deriving DecidableEq

/-- `be16` of the bytes at an offset. -/
def be16 (p : List UInt8) (off : Nat) : Nat :=
  256 * (p.getD off 0).toNat + (p.getD (off + 1) 0).toNat

/-- `extent_tracks`, in the arithmetic of `unsigned`. -/
def extentTracks (extent : List UInt8) (tpc : UInt32) : UInt32 :=
  (UInt32.ofNat (be16 extent 6) - UInt32.ofNat (be16 extent 2)) * tpc +
    (UInt32.ofNat (be16 extent 8) - UInt32.ofNat (be16 extent 4)) + 1

/-- The slots `sum_group` takes: as many as are wanted, and no more than there are. -/
def groupSlots (base : List UInt8) (count want : Nat) : List (List UInt8) :=
  (List.range (min count want)).map fun e => base.drop (e * DSX_EXTENT_LEN)

/-- `sum_group`: the total, and how many it took. -/
def sumGroup (base : List UInt8) (count want : Nat) (tpc total : UInt32) : UInt32 × Nat :=
  ((groupSlots base count want).foldl (fun total slot => total + extentTracks slot tpc) total,
    min count want)

/-- The loop of `dscb_alloc_tracks`, with the hops that are left. -/
def chainTracks (read3 : List UInt8 → Option (List UInt8)) (tpc : UInt32) :
    Nat → Nat → List UInt8 → UInt32 → Except DsxError UInt32
  | _, 0, _, total => .ok total
  | 0, _ + 1, _, _ => .error .chain
  | hops + 1, left + 1, ptr, total =>
    if ptr.all (· = 0) then .error .chain
    else
      match read3 ptr with
      | none => .error .read
      | some area =>
        if area.getD DSX_F3_FMTID_OFF 0 ≠ DSX_F3_FMTID then .error .format
        else
          let (total, n) := sumGroup (area.drop DSX_F3_EXT4_OFF) DSX_F3_EXT4_CNT (left + 1) tpc total
          let left := left + 1 - n
          let (total, n) := sumGroup (area.drop DSX_F3_EXT9_OFF) DSX_F3_EXT9_CNT left tpc total
          chainTracks read3 tpc hops (left - n)
            ((area.drop DSX_F3_PTR_OFF).take DSX_PTR_LEN) total

def dscbAllocTracks (f1ext f1ptr : List UInt8) (noepv : Nat) (tpc : UInt32)
    (read3 : List UInt8 → Option (List UInt8)) : Except DsxError UInt32 :=
  let (total, n) := sumGroup f1ext DSX_F1_EXTENTS noepv tpc 0
  chainTracks read3 tpc DSX_MAX_F3 (noepv - n) f1ptr total

/-! ## Catalog and volumes -/

abbrev Volser := List UInt8

/-- What is read of a format-1 DSCB. -/
structure Dscb1 where
  extent : List UInt8
  ptrds : List UInt8
  noepv : UInt8
  dsorg1 : UInt8
  scal1 : UInt8
  scal3 : UInt8 × UInt8 × UInt8

/-- The answers of `__locate`, `__dscbdv`, `__dscbv` (the tracks of a cylinder) and `__dscbav`. -/
structure Vtoc where
  locate : List Char → Option Volser
  dscbdv : List Char → Volser → Option Dscb1
  dscbv : Volser → Option UInt32
  dscbav : List UInt8 → Volser → Option (List UInt8)

/-- A name as the catalog takes it. -/
def dsn44 (dsname : List Char) : List Char :=
  dsname.take MAX_DATASET_NAME ++ List.replicate (MAX_DATASET_NAME - dsname.length) ' '

/-- `vol_tpc`: 30, the value of a 3350, when the DSCB cannot be read. -/
def volTpc (v : Vtoc) (vol : Volser) : UInt32 :=
  let tpc := (v.dscbv vol).getD 0
  if tpc = 0 then 30 else tpc

/-- The unit a secondary quantity counts in. -/
def SCAL1_UNIT : UInt8 := 0xC0
def CYL : UInt8 := 0xC0

def Dscb1.secondary (d : Dscb1) : Nat :=
  65536 * d.scal3.1.toNat + 256 * d.scal3.2.1.toNat + d.scal3.2.2.toNat

/-- `model_alloc`: the primary and the secondary in tracks, `none` where it returns -1. -/
def modelAlloc (v : Vtoc) (dsname : List Char) : Option (UInt32 × UInt32) :=
  match v.locate (dsn44 dsname) with
  | none => none
  | some vol =>
    match v.dscbdv (dsn44 dsname) vol with
    | none => none
    | some dscb1 =>
      let tpc := volTpc v vol
      match dscbAllocTracks dscb1.extent dscb1.ptrds dscb1.noepv.toNat tpc (v.dscbav · vol) with
      | .error _ => none
      | .ok trks =>
        let sec := UInt32.ofNat dscb1.secondary
        some (if trks ≠ 0 then trks else 1, if dscb1.scal1 &&& SCAL1_UNIT = CYL then sec * tpc else sec)

/-! ## The extents a total is of -/

/-- The tracks of an extent: both ends count. -/
def extentSpan (tpc : Nat) (extent : List UInt8) : Int :=
  ((be16 extent 6 : Int) * tpc + be16 extent 8) - ((be16 extent 2 : Int) * tpc + be16 extent 4) + 1

/-- The extents of the chain behind a pointer, `left` of them; `none` where they cannot be read. -/
def chainSlots (read3 : List UInt8 → Option (List UInt8)) :
    Nat → Nat → List UInt8 → Option (List (List UInt8))
  | _, 0, _ => some []
  | 0, _ + 1, _ => none
  | hops + 1, left + 1, ptr =>
    if ptr.all (· = 0) then none
    else
      (read3 ptr).bind fun area =>
        if area.getD DSX_F3_FMTID_OFF 0 ≠ DSX_F3_FMTID then none
        else
          let four := groupSlots (area.drop DSX_F3_EXT4_OFF) DSX_F3_EXT4_CNT (left + 1)
          let nine := groupSlots (area.drop DSX_F3_EXT9_OFF) DSX_F3_EXT9_CNT (left + 1 - four.length)
          (chainSlots read3 hops (left + 1 - four.length - nine.length)
            ((area.drop DSX_F3_PTR_OFF).take DSX_PTR_LEN)).map fun es => four ++ nine ++ es

/-- The extents of a data set. -/
def Dscb1.slots (d : Dscb1) (read3 : List UInt8 → Option (List UInt8)) :
    Option (List (List UInt8)) :=
  let three := groupSlots d.extent DSX_F1_EXTENTS d.noepv.toNat
  (chainSlots read3 DSX_MAX_F3 (d.noepv.toNat - three.length) d.ptrds).map fun es => three ++ es

/-- The tracks the extents have. -/
def space (tpc : Nat) (slots : List (List UInt8)) : Int := (slots.map (extentSpan tpc)).sum

theorem length_groupSlots (base : List UInt8) (count want : Nat) :
    (groupSlots base count want).length = min count want := by
  rw [groupSlots, List.length_map, List.length_range]

theorem ofInt_natCast (n : Nat) : UInt32.ofInt (n : Int) = UInt32.ofNat n := by
  have hn : ((n : Int) % 2 ^ 32).toNat = n % 2 ^ 32 := by omega
  rw [UInt32.ofInt, hn]
  exact UInt32.toNat_inj.mp (by simp)

theorem extentTracks_eq (extent : List UInt8) (tpc : UInt32) :
    extentTracks extent tpc = UInt32.ofInt (extentSpan tpc.toNat extent) := by
  have hspan : extentSpan tpc.toNat extent =
      ((be16 extent 6 : Int) + -(be16 extent 2 : Int)) * (tpc.toNat : Int) +
        ((be16 extent 8 : Int) + -(be16 extent 4 : Int)) + 1 := by
    rw [extentSpan, Int.add_mul, Int.neg_mul]
    omega
  rw [hspan, UInt32.ofInt_add, UInt32.ofInt_add, UInt32.ofInt_mul, UInt32.ofInt_add,
    UInt32.ofInt_add, UInt32.ofInt_neg, UInt32.ofInt_neg, ofInt_natCast, ofInt_natCast,
    ofInt_natCast, ofInt_natCast, ofInt_natCast, UInt32.ofNat_toNat, UInt32.ofInt_one,
    ← UInt32.sub_eq_add_neg, ← UInt32.sub_eq_add_neg]
  rfl

theorem foldl_tracks (tpc : UInt32) (slots : List (List UInt8)) (z : Int) :
    slots.foldl (fun total slot => total + extentTracks slot tpc) (UInt32.ofInt z) =
      UInt32.ofInt (z + space tpc.toNat slots) := by
  induction slots generalizing z with
  | nil => rw [List.foldl_nil, space, List.map_nil, List.sum_nil, add_zero]
  | cons slot slots ih =>
    rw [List.foldl_cons, extentTracks_eq, ← UInt32.ofInt_add, ih, space, space, List.map_cons,
      List.sum_cons, add_assoc]

theorem space_append (tpc : Nat) (xs ys : List (List UInt8)) :
    space tpc (xs ++ ys) = space tpc xs + space tpc ys := by
  rw [space, List.map_append, List.sum_append]
  rfl

/-- The chain gives a total where its extents can be read, and the total is theirs. -/
theorem chainTracks_eq (read3 : List UInt8 → Option (List UInt8)) (tpc : UInt32)
    (hops left : Nat) (ptr : List UInt8) (z : Int) :
    (chainTracks read3 tpc hops left ptr (UInt32.ofInt z)).toOption =
      (chainSlots read3 hops left ptr).map fun es => UInt32.ofInt (z + space tpc.toNat es) := by
  induction hops generalizing left ptr z with
  | zero =>
    cases left with
    | zero =>
      rw [chainTracks, chainSlots, Option.map_some, space, List.map_nil, List.sum_nil, add_zero]
      rfl
    | succ left => rfl
  | succ hops ih =>
    cases left with
    | zero =>
      rw [chainTracks, chainSlots, Option.map_some, space, List.map_nil, List.sum_nil, add_zero]
      rfl
    | succ left =>
      rw [chainTracks, chainSlots]
      split
      · rfl
      · cases read3 ptr with
        | none => rfl
        | some area =>
          rw [Option.bind_some]
          dsimp only
          split
          · rfl
          · simp only [sumGroup, foldl_tracks, ih, length_groupSlots, Option.map_map]
            refine congrArg (Option.map · _) (funext fun es => ?_)
            simp only [Function.comp, space_append, add_assoc]

theorem dscbAllocTracks_eq (d : Dscb1) (tpc : UInt32) (read3 : List UInt8 → Option (List UInt8)) :
    (dscbAllocTracks d.extent d.ptrds d.noepv.toNat tpc read3).toOption =
      (d.slots read3).map fun es => UInt32.ofInt (space tpc.toNat es) := by
  have hzero : (0 : UInt32) = UInt32.ofInt 0 := rfl
  rw [dscbAllocTracks, Dscb1.slots, hzero]
  simp only [sumGroup, foldl_tracks, chainTracks_eq, length_groupSlots, Option.map_map]
  refine congrArg (Option.map · _) (funext fun es => ?_)
  simp only [Function.comp, space_append, zero_add]

end Mvsmf
