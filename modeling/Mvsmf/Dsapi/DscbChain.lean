import Mvsmf.Dsapi.ModelSpace

/-!
# The extents of a data set, byte by byte

The extents of a data set stand in groups of three, four and nine in its DSCBs, and only so many of
them count as the format-1 DSCB says. Here a DSCB has its length, so that every byte that is read is
one of it, and a reader may answer each time as it likes. With a reader that always answers alike this
is `dscb_alloc_tracks` as the space of a model is read by it.
-/

namespace Mvsmf

def DSX_F3_LEN : Nat := 140

abbrev Cchhr := Vector UInt8 DSX_PTR_LEN
abbrev Dscb3 := Vector UInt8 DSX_F3_LEN

/-- `DSX_READ3`, by the number of the call. -/
abbrev DsxRead3 := Nat → Cchhr → Option Dscb3

section

variable {n : Nat}

def be16At (p : Vector UInt8 n) (off : Nat) (h : off + 1 < n) : Nat :=
  256 * p[off].toNat + p[off + 1].toNat

/-- `extent_tracks` of the extent at an offset. -/
def extentTracksAt (p : Vector UInt8 n) (off : Nat) (h : off + DSX_EXTENT_LEN ≤ n) (tpc : UInt32) :
    UInt32 :=
  have h10 : off + 10 ≤ n := h
  (UInt32.ofNat (be16At p (off + 6) (by omega)) - UInt32.ofNat (be16At p (off + 2) (by omega))) * tpc +
    (UInt32.ofNat (be16At p (off + 8) (by omega)) - UInt32.ofNat (be16At p (off + 4) (by omega))) + 1

/-- `sum_group` of the slots at an offset: the total, and how many it took. -/
def sumGroupAt (p : Vector UInt8 n) (base count want : Nat)
    (h : base + count * DSX_EXTENT_LEN ≤ n) (tpc total : UInt32) : UInt32 × Nat :=
  (Fin.foldl (min count want) (fun total e =>
      have hslot : base + e * DSX_EXTENT_LEN + DSX_EXTENT_LEN ≤ n := by
        have hle : (e.val + 1) * DSX_EXTENT_LEN ≤ count * DSX_EXTENT_LEN :=
          Nat.mul_le_mul_right _ (by have := e.isLt; omega)
        rw [Nat.add_mul, Nat.one_mul] at hle
        omega
      total + extentTracksAt p (base + e * DSX_EXTENT_LEN) hslot tpc) total,
    min count want)

end

/-- `ptr_is_zero` -/
def ptrIsZero (ptr : Cchhr) : Bool := ptr.toList.all (· == 0)

/-- The pointer to the next format-3 DSCB. -/
def Dscb3.ptr (area : Dscb3) : Cchhr :=
  Vector.ofFn fun i =>
    have hoff : DSX_F3_PTR_OFF + i.val < DSX_F3_LEN := Nat.add_lt_add_left i.isLt DSX_F3_PTR_OFF
    area[DSX_F3_PTR_OFF + i.val]

/-- `area[DSX_F3_FMTID_OFF]` -/
def Dscb3.fmtid (area : Dscb3) : UInt8 :=
  have hoff : DSX_F3_FMTID_OFF < DSX_F3_LEN := by decide
  area[DSX_F3_FMTID_OFF]

/-- The loop over the chain, with the hops that are left. -/
def chainTracksAt (read3 : DsxRead3) (tpc : UInt32) :
    Nat → Nat → Cchhr → UInt32 → Except DsxError UInt32
  | _, 0, _, total => .ok total
  | 0, _ + 1, _, _ => .error .chain
  | hops + 1, left + 1, ptr, total =>
    if ptrIsZero ptr then .error .chain
    else
      match read3 0 ptr with
      | none => .error .read
      | some area =>
        if area.fmtid ≠ DSX_F3_FMTID then .error .format
        else
          let (total, n) := sumGroupAt area DSX_F3_EXT4_OFF DSX_F3_EXT4_CNT (left + 1) (by decide)
            tpc total
          let left := left + 1 - n
          let (total, n) := sumGroupAt area DSX_F3_EXT9_OFF DSX_F3_EXT9_CNT left (by decide) tpc total
          chainTracksAt (fun i => read3 (i + 1)) tpc hops (left - n) area.ptr total

/-- What `dscb_alloc_tracks` returns, and `*trks`. -/
def dscbAlloc (f1ext : Vector UInt8 (DSX_F1_EXTENTS * DSX_EXTENT_LEN)) (f1ptr : Cchhr) (noepv : Nat)
    (tpc : UInt32) (read3 : DsxRead3) (trks : UInt32) : Except DsxError Unit × UInt32 :=
  let (total, n) := sumGroupAt f1ext 0 DSX_F1_EXTENTS noepv (by decide) tpc 0
  match chainTracksAt read3 tpc DSX_MAX_F3 (noepv - n) f1ptr total with
  | .ok total => (.ok (), total)
  | .error e => (.error e, trks)

/-! ## The extents of a chain -/

/-- The slots of a group. -/
def slotsAt {n : Nat} (p : Vector UInt8 n) (base count : Nat) : List (List UInt8) :=
  (List.range count).map fun e => (p.toList.drop (base + e * DSX_EXTENT_LEN)).take DSX_EXTENT_LEN

/-- The thirteen slots of a format-3 DSCB. -/
def Dscb3.slots (area : Dscb3) : List (List UInt8) :=
  slotsAt area DSX_F3_EXT4_OFF DSX_F3_EXT4_CNT ++ slotsAt area DSX_F3_EXT9_OFF DSX_F3_EXT9_CNT

/-- The DSCBs are the first of the chain behind a pointer: each is pointed to, read and of format 3. -/
inductive Chain3 : DsxRead3 → Cchhr → List Dscb3 → Prop
  | nil {read3 : DsxRead3} {ptr : Cchhr} : Chain3 read3 ptr []
  | cons {read3 : DsxRead3} {ptr : Cchhr} {area : Dscb3} {areas : List Dscb3} :
    ptrIsZero ptr = false → read3 0 ptr = some area → area.fmtid = DSX_F3_FMTID →
      Chain3 (fun i => read3 (i + 1)) area.ptr areas → Chain3 read3 ptr (area :: areas)

/-- The DSCBs with the slots of so many extents. -/
def dscb3sFor (left : Nat) : Nat := (left + 12) / 13

section

variable {n : Nat} {p : Vector UInt8 n}

theorem getD_slice (off i : Nat) (hi : i < DSX_EXTENT_LEN) (h : off + i < n) :
    ((p.toList.drop off).take DSX_EXTENT_LEN).getD i 0 = p[off + i] := by
  rw [List.getD_eq_getElem?_getD, List.getElem?_take_of_lt hi, List.getElem?_drop,
    List.getElem?_eq_getElem (by simpa using h), Option.getD_some]
  simp

theorem extentTracksAt_eq (off : Nat) (h : off + DSX_EXTENT_LEN ≤ n) (tpc : UInt32) :
    extentTracksAt p off h tpc =
      extentTracks ((p.toList.drop off).take DSX_EXTENT_LEN) tpc := by
  have h10 : off + 10 ≤ n := h
  have hbe (i : Nat) (hi : i + 1 < DSX_EXTENT_LEN) (hin : off + i + 1 < n) :
      be16At p (off + i) hin = be16 ((p.toList.drop off).take DSX_EXTENT_LEN) i := by
    rw [be16At, be16, getD_slice off i (Nat.lt_of_succ_lt hi) (by omega),
      getD_slice off (i + 1) hi hin]
    rfl
  rw [extentTracksAt, extentTracks, hbe 6 (by decide), hbe 2 (by decide), hbe 8 (by decide),
    hbe 4 (by decide)]

theorem length_slotsAt (base count : Nat) : (slotsAt p base count).length = count := by
  rw [slotsAt, List.length_map, List.length_range]

theorem take_slotsAt (base : Nat) {k count : Nat} (hk : k ≤ count) :
    (slotsAt p base count).take k = slotsAt p base k := by
  rw [slotsAt, ← List.map_take, List.take_range, Nat.min_eq_left hk, slotsAt]

theorem slotsAt_succ (base k : Nat) :
    slotsAt p base (k + 1) = slotsAt p base k ++
      [(p.toList.drop (base + k * DSX_EXTENT_LEN)).take DSX_EXTENT_LEN] := by
  rw [slotsAt, List.range_succ, List.map_append, slotsAt]
  rfl

theorem foldl_extents (base : Nat) (tpc : UInt32) (z : Int) (k : Nat)
    (h : ∀ e : Fin k, base + e * DSX_EXTENT_LEN + DSX_EXTENT_LEN ≤ n) :
    Fin.foldl k (fun total e =>
        total + extentTracksAt p (base + e * DSX_EXTENT_LEN) (h e) tpc) (UInt32.ofInt z) =
      UInt32.ofInt (z + space tpc.toNat (slotsAt p base k)) := by
  induction k with
  | zero => rw [Fin.foldl_zero, slotsAt, List.range_zero, List.map_nil, space, List.map_nil,
      List.sum_nil, add_zero]
  | succ k ih =>
    rw [Fin.foldl_succ_last]
    simp only [Fin.val_castSucc, Fin.val_last]
    rw [ih fun e => h e.castSucc, extentTracksAt_eq, extentTracks_eq, ← UInt32.ofInt_add,
      slotsAt_succ, space_append, add_assoc]
    refine congrArg (fun x => UInt32.ofInt (z + (space tpc.toNat (slotsAt p base k) + x))) ?_
    exact List.sum_singleton.symm

/-- A group gives the sum of the slots it takes. -/
theorem sumGroupAt_eq (base count want : Nat) (h : base + count * DSX_EXTENT_LEN ≤ n) (tpc : UInt32)
    (z : Int) :
    sumGroupAt p base count want h tpc (UInt32.ofInt z) =
      (UInt32.ofInt (z + space tpc.toNat ((slotsAt p base count).take want)), min count want) := by
  have htake : (slotsAt p base count).take want = slotsAt p base (min count want) := by
    rw [← take_slotsAt base (Nat.min_le_left count want), List.take_eq_take_min, length_slotsAt,
      Nat.min_comm]
  rw [sumGroupAt, foldl_extents, htake]

end

/-! ## The chain -/

theorem dscb3sFor_succ (left : Nat) :
    dscb3sFor (left + 1) = dscb3sFor (left + 1 - 4 - 9) + 1 := by
  unfold dscb3sFor
  omega

/-- The first extents of the chain are the first of its first DSCB and of the others. -/
theorem take_slots (area : Dscb3) (areas : List Dscb3) (left : Nat) :
    ((area :: areas).flatMap Dscb3.slots).take left =
      (slotsAt area DSX_F3_EXT4_OFF DSX_F3_EXT4_CNT).take left ++
        ((slotsAt area DSX_F3_EXT9_OFF DSX_F3_EXT9_CNT).take (left - 4) ++
          (areas.flatMap Dscb3.slots).take (left - 4 - 9)) := by
  rw [List.flatMap_cons, Dscb3.slots, List.append_assoc, List.take_append, List.take_append,
    length_slotsAt, length_slotsAt]
  rfl

/-- No extents are left. -/
theorem chainTracksAt_none_left (tpc : UInt32) (hops : Nat) (read3 : DsxRead3) (ptr : Cchhr) (z : Int)
    (total : UInt32) :
    chainTracksAt read3 tpc hops 0 ptr (UInt32.ofInt z) = .ok total ↔
      dscb3sFor 0 ≤ hops ∧ ∃ areas, Chain3 read3 ptr areas ∧ areas.length = dscb3sFor 0 ∧
        total = UInt32.ofInt (z + space tpc.toNat ((areas.flatMap Dscb3.slots).take 0)) := by
  have hspace : z + space tpc.toNat [] = z := by rw [space, List.map_nil, List.sum_nil, add_zero]
  simp only [chainTracksAt, List.take_zero, hspace]
  constructor
  · rintro ⟨⟩
    exact ⟨Nat.zero_le _, [], .nil, rfl, rfl⟩
  · rintro ⟨-, areas, -, -, rfl⟩
    rfl

/-- The loop gives a total where it finds the DSCBs that it needs. -/
theorem chainTracksAt_ok_iff (tpc : UInt32) (hops : Nat) (read3 : DsxRead3) (left : Nat) (ptr : Cchhr)
    (z : Int) (total : UInt32) :
    chainTracksAt read3 tpc hops left ptr (UInt32.ofInt z) = .ok total ↔
      dscb3sFor left ≤ hops ∧ ∃ areas, Chain3 read3 ptr areas ∧ areas.length = dscb3sFor left ∧
        total = UInt32.ofInt (z + space tpc.toNat ((areas.flatMap Dscb3.slots).take left)) := by
  induction hops generalizing read3 left ptr z with
  | zero =>
    cases left with
    | zero => exact chainTracksAt_none_left tpc 0 read3 ptr z total
    | succ left =>
      refine iff_of_false nofun fun h => ?_
      have := h.1
      rw [dscb3sFor_succ] at this
      omega
  | succ hops ih =>
    cases left with
    | zero => exact chainTracksAt_none_left tpc (hops + 1) read3 ptr z total
    | succ left =>
      rw [chainTracksAt, dscb3sFor_succ]
      cases hzero : ptrIsZero ptr with
      | true =>
        rw [if_pos rfl]
        refine iff_of_false nofun ?_
        rintro ⟨-, areas, hchain, hlen, -⟩
        cases hchain with
        | nil => cases hlen
        | cons hptr => exact absurd (hzero.symm.trans hptr) (by decide)
      | false =>
        rw [if_neg (by decide)]
        cases hread : read3 0 ptr with
        | none =>
          refine iff_of_false nofun ?_
          rintro ⟨-, areas, hchain, hlen, -⟩
          cases hchain with
          | nil => cases hlen
          | cons _ hread' => cases hread.symm.trans hread'
        | some area =>
          dsimp only
          by_cases hfmt : area.fmtid = DSX_F3_FMTID
          · rw [if_neg (not_not_intro hfmt)]
            simp only [sumGroupAt_eq]
            have hleft : left + 1 - min DSX_F3_EXT4_CNT (left + 1) -
                min DSX_F3_EXT9_CNT (left + 1 - min DSX_F3_EXT4_CNT (left + 1)) = left + 1 - 4 - 9 := by
              unfold DSX_F3_EXT4_CNT DSX_F3_EXT9_CNT
              omega
            have hnine : left + 1 - min DSX_F3_EXT4_CNT (left + 1) = left + 1 - 4 := by
              unfold DSX_F3_EXT4_CNT
              omega
            rw [hleft, hnine, ih]
            constructor
            · rintro ⟨hle, areas, hchain, hlen, rfl⟩
              refine ⟨by omega, area :: areas, .cons hzero hread hfmt hchain, ?_, ?_⟩
              · rw [List.length_cons, hlen]
              · rw [take_slots, space_append, space_append]
                simp only [add_assoc]
            · rintro ⟨hle, areas, hchain, hlen, rfl⟩
              cases hchain with
              | nil => cases hlen
              | cons _ hread' _ hrest =>
                cases hread.symm.trans hread'
                refine ⟨by omega, _, hrest, Nat.succ.inj hlen, ?_⟩
                rw [take_slots, space_append, space_append]
                simp only [add_assoc]
          · rw [if_pos hfmt]
            refine iff_of_false nofun ?_
            rintro ⟨-, areas, hchain, hlen, -⟩
            cases hchain with
            | nil => cases hlen
            | cons _ hread' hfmt' =>
              cases hread.symm.trans hread'
              exact hfmt hfmt'

/-- **The total of a data set.** A total is set exactly if the DSCBs that the extents need are no more
than `DSX_MAX_F3` and the first ones of the chain, each pointed to, read and of format 3. It is then
the sum of the first `noepv` extents of the format-1 DSCB and the chain, modulo 2 ^ 32. Otherwise
`*trks` is left alone. -/
theorem dscbAlloc_total (f1ext : Vector UInt8 (DSX_F1_EXTENTS * DSX_EXTENT_LEN)) (f1ptr : Cchhr)
    (noepv : Nat) (tpc : UInt32) (read3 : DsxRead3) (trks : UInt32) :
    let out := dscbAlloc f1ext f1ptr noepv tpc read3 trks
    let needed := dscb3sFor (noepv - DSX_F1_EXTENTS)
    (out.1 = .ok () ↔ needed ≤ DSX_MAX_F3 ∧ ∃ areas, Chain3 read3 f1ptr areas ∧ areas.length = needed) ∧
      (out.1 = .ok () → ∃ areas, Chain3 read3 f1ptr areas ∧ areas.length = needed ∧
        out.2 = UInt32.ofInt (space tpc.toNat
          ((slotsAt f1ext 0 DSX_F1_EXTENTS ++ areas.flatMap Dscb3.slots).take noepv))) ∧
      (out.1 ≠ .ok () → out.2 = trks) := by
  intro out needed
  have hzero : (0 : UInt32) = UInt32.ofInt 0 := rfl
  have hleft : noepv - min DSX_F1_EXTENTS noepv = noepv - DSX_F1_EXTENTS := by omega
  have hspace (areas : List Dscb3) :
      0 + space tpc.toNat ((slotsAt f1ext 0 DSX_F1_EXTENTS).take noepv) +
          space tpc.toNat ((areas.flatMap Dscb3.slots).take (noepv - DSX_F1_EXTENTS)) =
        space tpc.toNat ((slotsAt f1ext 0 DSX_F1_EXTENTS ++ areas.flatMap Dscb3.slots).take noepv) := by
    rw [List.take_append, length_slotsAt, space_append, zero_add]
  have hchain (total : UInt32) := chainTracksAt_ok_iff tpc DSX_MAX_F3 read3 (noepv - DSX_F1_EXTENTS) f1ptr
    (0 + space tpc.toNat ((slotsAt f1ext 0 DSX_F1_EXTENTS).take noepv)) total
  have hout : out = match chainTracksAt read3 tpc DSX_MAX_F3 (noepv - DSX_F1_EXTENTS) f1ptr
      (UInt32.ofInt (0 + space tpc.toNat ((slotsAt f1ext 0 DSX_F1_EXTENTS).take noepv))) with
      | .ok total => (.ok (), total)
      | .error e => (.error e, trks) := by
    show dscbAlloc f1ext f1ptr noepv tpc read3 trks = _
    rw [dscbAlloc, hzero, sumGroupAt_eq]
    simp only [hleft]
  cases hrun : chainTracksAt read3 tpc DSX_MAX_F3 (noepv - DSX_F1_EXTENTS) f1ptr
      (UInt32.ofInt (0 + space tpc.toNat ((slotsAt f1ext 0 DSX_F1_EXTENTS).take noepv))) with
  | ok total =>
    rw [hrun] at hout
    obtain ⟨hle, areas, hareas, hlen, htotal⟩ := (hchain total).mp hrun
    rw [hspace] at htotal
    rw [hout]
    exact ⟨iff_of_true rfl ⟨hle, areas, hareas, hlen⟩, fun _ => ⟨areas, hareas, hlen, htotal⟩,
      fun hne => absurd rfl hne⟩
  | error e =>
    rw [hrun] at hout
    rw [hout]
    refine ⟨iff_of_false nofun ?_, nofun, fun _ => rfl⟩
    rintro ⟨hle, areas, hareas, hlen⟩
    have := (hchain _).mpr ⟨hle, areas, hareas, hlen, rfl⟩
    rw [hrun] at this
    cases this

/-! ## The space of a model -/

theorem be16_take (l : List UInt8) (off : Nat) (h : off + 1 < DSX_EXTENT_LEN) :
    be16 (l.take DSX_EXTENT_LEN) off = be16 l off := by
  have hget (i : Nat) (hi : i < DSX_EXTENT_LEN) : (l.take DSX_EXTENT_LEN).getD i 0 = l.getD i 0 := by
    rw [List.getD_eq_getElem?_getD, List.getD_eq_getElem?_getD, List.getElem?_take_of_lt hi]
  rw [be16, be16, hget off (by omega), hget (off + 1) h]

theorem extentSpan_take (tpc : Nat) (l : List UInt8) :
    extentSpan tpc (l.take DSX_EXTENT_LEN) = extentSpan tpc l := by
  rw [extentSpan, extentSpan, be16_take l 6 (by decide), be16_take l 8 (by decide),
    be16_take l 2 (by decide), be16_take l 4 (by decide)]

theorem sumGroup_eq {n : Nat} (p : Vector UInt8 n) (base count want : Nat)
    (h : base + count * DSX_EXTENT_LEN ≤ n) (tpc total : UInt32) :
    sumGroup (p.toList.drop base) count want tpc total = sumGroupAt p base count want h tpc total := by
  obtain ⟨z, rfl⟩ : ∃ z : Int, total = UInt32.ofInt z :=
    ⟨total.toNat, by rw [ofInt_natCast, UInt32.ofNat_toNat]⟩
  have htake : (slotsAt p base count).take want = slotsAt p base (min count want) := by
    rw [← take_slotsAt base (Nat.min_le_left count want), List.take_eq_take_min, length_slotsAt,
      Nat.min_comm]
  have hspace : space tpc.toNat (groupSlots (p.toList.drop base) count want) =
      space tpc.toNat (slotsAt p base (min count want)) := by
    rw [space, space, groupSlots, slotsAt, List.map_map, List.map_map]
    refine congrArg List.sum (List.map_congr_left fun e _ => ?_)
    simp only [Function.comp, List.drop_drop, extentSpan_take]
  rw [sumGroupAt_eq, sumGroup, foldl_tracks, htake, hspace]

theorem fmtid_toList (area : Dscb3) : area.toList.getD DSX_F3_FMTID_OFF 0 = area.fmtid := by
  have hoff : DSX_F3_FMTID_OFF < area.toList.length := by
    rw [Vector.length_toList]
    decide
  rw [List.getD_eq_getElem?_getD, List.getElem?_eq_getElem hoff, Option.getD_some, Dscb3.fmtid,
    Vector.getElem_toList]

theorem ptr_toList (area : Dscb3) :
    area.ptr.toList = (area.toList.drop DSX_F3_PTR_OFF).take DSX_PTR_LEN := by
  refine List.ext_getElem ?_ fun i h _ => ?_
  · rw [List.length_take, List.length_drop, Vector.length_toList, Vector.length_toList]
    rfl
  · rw [List.getElem_take, List.getElem_drop, Vector.getElem_toList, Vector.getElem_toList]
    exact Vector.getElem_ofFn _

theorem chainTracksAt_eq (tpc : UInt32) (read3 : Cchhr → Option Dscb3)
    {readList : List UInt8 → Option (List UInt8)}
    (hread : ∀ ptr : Cchhr, readList ptr.toList = (read3 ptr).map Vector.toList) (hops left : Nat)
    (ptr : Cchhr) (total : UInt32) :
    chainTracks readList tpc hops left ptr.toList total =
      chainTracksAt (fun _ => read3) tpc hops left ptr total := by
  induction hops generalizing left ptr total with
  | zero => cases left <;> rfl
  | succ hops ih =>
    cases left with
    | zero => rfl
    | succ left =>
      rw [chainTracks, chainTracksAt, hread]
      refine ite_congr rfl (fun _ => rfl) fun _ => ?_
      cases read3 ptr with
      | none => rfl
      | some area =>
        simp only [Option.map_some, fmtid_toList, ← ptr_toList, ih]
        rw [sumGroup_eq area DSX_F3_EXT4_OFF DSX_F3_EXT4_CNT (left + 1) (by decide)]
        simp only [sumGroup_eq area DSX_F3_EXT9_OFF DSX_F3_EXT9_CNT _ (by decide : _ ≤ DSX_F3_LEN)]

/-- With a reader that always answers alike, this is the total that a model's space is read by. -/
theorem dscbAllocTracks_at (f1ext : Vector UInt8 (DSX_F1_EXTENTS * DSX_EXTENT_LEN)) (f1ptr : Cchhr)
    (noepv : Nat) (tpc : UInt32) (read3 : Cchhr → Option Dscb3)
    {readList : List UInt8 → Option (List UInt8)}
    (hread : ∀ ptr : Cchhr, readList ptr.toList = (read3 ptr).map Vector.toList) (trks : UInt32) :
    dscbAlloc f1ext f1ptr noepv tpc (fun _ => read3) trks =
      match dscbAllocTracks f1ext.toList f1ptr.toList noepv tpc readList with
      | .ok total => (.ok (), total)
      | .error e => (.error e, trks) := by
  have hfirst := sumGroup_eq f1ext 0 DSX_F1_EXTENTS noepv (by decide) tpc 0
  rw [List.drop_zero] at hfirst
  rw [dscbAlloc, dscbAllocTracks, hfirst]
  simp only [chainTracksAt_eq tpc read3 hread]

end Mvsmf
