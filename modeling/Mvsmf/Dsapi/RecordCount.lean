import Mvsmf.Dsapi.Allocate
import Mvsmf.Dsapi.Get

/-!
# The record count of a data set

A sequential data set of fixed records can be read past its end, so the reads for a binary answer
and for the ETag are limited to a count. It comes from DS1LSTAR, the track and the block the data set
ends in, and from the blocks that fit on a track of the device.
-/

namespace Mvsmf

/-! ## The device -/

def CELL_BYTES : Nat := 32
def CELLS_3380 : Nat := 1499
def DEVTK_3380 : Nat := CELLS_3380 * CELL_BYTES
def CELLS_BLOCK_FIX : Nat := 15
def CELLS_DATA_FIX : Nat := 12
def DS4DEVFG_CELLS : UInt8 := 0x20

/-- The geometry in a format-4 DSCB. -/
structure Dscb4 where
  devtk : UInt16
  devov : UInt16
  devk : UInt16
  devfg : UInt8

/-- Zero where the device is not one the formulas know. -/
def blocksPerTrack (g : Dscb4) (blksz : Nat) : Nat :=
  if blksz = 0 then 0
  else if g.devfg &&& DS4DEVFG_CELLS ≠ 0 then
    if g.devtk.toNat ≠ DEVTK_3380 then 0
    else CELLS_3380 / (CELLS_BLOCK_FIX + (blksz + CELLS_DATA_FIX + CELL_BYTES - 1) / CELL_BYTES)
  else if g.devov < g.devk then 0
  else
    let overhead := g.devov.toNat - g.devk.toNat
    if g.devtk.toNat ≤ overhead then 0
    else (g.devtk.toNat - overhead) / (overhead + blksz)

/-- A 3350, on which the overhead of a key is more than a byte holds. -/
example : blocksPerTrack ⟨19254, 267, 82, 0x08⟩ 6000 = 3 := by decide

/-! ## The count -/

def RECFF : UInt8 := 0x80

/-- The fields of a format-1 DSCB the count is made of; `lstar` is the track and the block. -/
structure FbDscb1 where
  recfm : UInt8
  keyl : UInt8
  blksz : UInt16
  lrecl : UInt16
  lstar : UInt16 × UInt8

/-- The checks before the geometry is read. -/
def FbDscb1.countable (d : FbDscb1) : Bool :=
  d.recfm &&& RECFF ≠ 0 && d.keyl = 0 && d.blksz ≠ 0 && d.lrecl ≠ 0

def FbDscb1.recsPerBlock (d : FbDscb1) : Nat := d.blksz.toNat / d.lrecl.toNat

/-- `get_fb_record_count` with the DSCBs it reads; -1 is no count. The products are unsigned words
and the result is a signed one. -/
def getFbRecordCount (d : Option FbDscb1) (g : Option Dscb4) : Int :=
  match d, g with
  | some d, some g =>
    if !d.countable then -1
    else
      let bpt := blocksPerTrack g d.blksz.toNat
      if bpt = 0 then -1
      else
        let totalBlocks : UInt32 := .ofNat (d.lstar.1.toNat * bpt + d.lstar.2.toNat)
        asInt (totalBlocks * .ofNat d.recsPerBlock)
  | _, _ => -1

/-! ## Where a data set ends -/

/-- The track and the block of the last of some blocks, counted from the first track and from the
first block of a track. -/
def lastBlock (bpt : Nat) : Nat → Nat × Nat
  | 0 => (0, 0)
  | b + 1 => (b / bpt, b % bpt + 1)

/-- `n` records fill the blocks up to the one that DS1LSTAR names; the last may be short. -/
structure Filled (d : FbDscb1) (bpt n blocks : Nat) : Prop where
  lstar : (d.lstar.1.toNat, d.lstar.2.toNat) = lastBlock bpt blocks
  full : (blocks - 1) * d.recsPerBlock < n ∨ blocks = 0
  room : n ≤ blocks * d.recsPerBlock

theorem lastBlock_blocks (bpt blocks : Nat) :
    (lastBlock bpt blocks).1 * bpt + (lastBlock bpt blocks).2 = blocks := by
  cases blocks with
  | zero => simp [lastBlock]
  | succ b => exact congrArg (· + 1) (Nat.div_add_mod' b bpt)

theorem toNat_ofNat_mul (a b : Nat) (h : a * b < 2 ^ 32) :
    (UInt32.ofNat a * UInt32.ofNat b).toNat = a * b := by
  rw [← UInt32.ofNat_mul, UInt32.toNat_ofNat_of_lt' h]

/-- The count is that of full blocks, a negative number from 2^31 records on. -/
theorem getFbRecordCount_filled {d : FbDscb1} {g : Dscb4} {n blocks : Nat}
    (hd : d.countable = true) (hdev : blocksPerTrack g d.blksz.toNat ≠ 0)
    (h : Filled d (blocksPerTrack g d.blksz.toNat) n blocks)
    (hsize : blocks * d.recsPerBlock < 2 ^ 32) :
    getFbRecordCount (some d) (some g) = if blocks * d.recsPerBlock < 2 ^ 31 then
      ((blocks * d.recsPerBlock : Nat) : Int) else ((blocks * d.recsPerBlock : Nat) : Int) - 2 ^ 32 := by
  have hblocks : d.lstar.1.toNat * blocksPerTrack g d.blksz.toNat + d.lstar.2.toNat = blocks := by
    have hlast := lastBlock_blocks (blocksPerTrack g d.blksz.toNat) blocks
    rwa [← h.lstar] at hlast
  simp only [getFbRecordCount, hd, Bool.not_true, Bool.false_eq_true, if_false, if_neg hdev]
  rw [hblocks, asInt, toNat_ofNat_mul _ _ hsize]

/-- What a limit takes of the records and of what can be read behind them. -/
theorem limited_append (maxRecords : Int) (ns residue : List (List UInt8))
    (hle : (ns.length : Int) ≤ maxRecords) :
    limited maxRecords (ns ++ residue) = ns ++ residue.take (maxRecords.toNat - ns.length) := by
  rw [limited, if_pos (by omega), List.take_append, List.take_of_length_le (by omega)]

/-- **The count limits a read to the data set.** Where the records fill the blocks that DS1LSTAR
counts, with fewer than 2^31 in full blocks, the read of a binary answer and that of the ETag both
take all the records and, of what is behind them, less than a block. -/
theorem recordCount_reads {d : FbDscb1} {g : Dscb4} {n blocks : Nat} {f : DsFile}
    {records residue : List (List UInt8)} (hd : d.countable = true)
    (hdev : blocksPerTrack g d.blksz.toNat ≠ 0)
    (h : Filled d (blocksPerTrack g d.blksz.toNat) n blocks)
    (hsize : blocks * d.recsPerBlock < 2 ^ 31) (hn : records.length = n)
    (hfixed : f.dcb.isUndefined = false) (hlrecl : f.dcb.lrecl = d.lrecl.toNat)
    (hreads : f.reads f.dcb.lrecl = records ++ residue) (hread : f.ferror = false) :
    ∃ behind, behind <+: residue ∧ (behind = [] ∨ behind.length < d.recsPerBlock) ∧
      (∀ cp, readAndSendDataset .sound f .binary cp (getFbRecordCount (some d) (some g)) =
        ⟨none, records ++ behind, false⟩) ∧
      datasetEtag (fun _ => true) (some f) (getFbRecordCount (some d) (some g)) =
        some (records ++ behind) := by
  have hcount := getFbRecordCount_filled hd hdev h (hsize.trans (by decide))
  rw [if_pos hsize] at hcount
  have hle : (records.length : Int) ≤ getFbRecordCount (some d) (some g) := by
    rw [hcount, hn]
    exact Int.ofNat_le.mpr h.room
  have hlimited : limited (getFbRecordCount (some d) (some g)) (f.reads f.dcb.lrecl) =
      records ++ residue.take (blocks * d.recsPerBlock - n) := by
    rw [hreads, limited_append _ _ _ hle, hcount, hn, Int.toNat_natCast]
  refine ⟨residue.take (blocks * d.recsPerBlock - n), List.take_prefix _ _, ?_, fun cp => ?_, ?_⟩
  · rcases h.full with hfull | rfl
    · -- the last block has a record of the data set in it
      refine .inr (lt_of_le_of_lt (List.length_take_le _ _) ?_)
      rw [Nat.sub_mul, Nat.one_mul] at hfull
      have hblock : d.recsPerBlock ≤ blocks * d.recsPerBlock ∨ blocks = 0 := by
        rcases Nat.eq_zero_or_pos blocks with h0 | hpos
        · exact .inr h0
        · exact .inl (Nat.le_mul_of_pos_left _ hpos)
      have hroom := h.room
      rcases hblock with hblock | rfl
      · omega
      · omega
    · rw [Nat.zero_mul, Nat.zero_sub, List.take_zero]
      exact .inl rfl
  · rw [readAndSendDataset_binary f cp _ hread, hlimited]
  · have heff : f.dcb.effLrecl = f.dcb.lrecl := if_neg (by rw [hfixed]; exact Bool.false_ne_true)
    have hpos : f.dcb.lrecl ≠ 0 := by
      have hfield : d.lrecl ≠ 0 := by
        simp only [FbDscb1.countable, Bool.and_eq_true, decide_eq_true_eq] at hd
        exact hd.2
      rw [hlrecl]
      exact fun h0 => hfield (UInt16.toNat_inj.mp h0)
    unfold datasetEtag
    simp only [heff, hpos, hread, Bool.true_eq_false, Bool.false_eq_true, if_false]
    rw [hashRecords_eq, hlimited]

/-- One record in a block for two, on a 3380. -/
def shortDscb1 : FbDscb1 := ⟨0x90, 0, 2, 1, (0, 1)⟩

def device3380 : Dscb4 := ⟨47968, 0, 0, 0x20⟩

def shortFile : DsFile where
  dcb := ⟨0x90, 1, 2⟩
  reads n := if n = 1 then [[0xC1], [0x40], [0x40]] else []
  lines _ := []
  ferror := false
  lrecl_undefined h := by
    have hno : Dcb.isUndefined ⟨0x90, 1, 2⟩ = false := by decide
    rw [hno] at h
    cases h
  reads_fit n b hb := by
    split at hb
    · next h1 =>
      simp only [List.mem_cons, List.not_mem_nil, or_false] at hb
      rcases hb with rfl | rfl | rfl <;> simp [h1]
    · cases hb

theorem recordCount_reads_short :
    ∃ behind, behind <+: [[0x40], [0x40]] ∧ (behind = [] ∨ behind.length < 2) ∧
      (∀ cp, readAndSendDataset .sound shortFile .binary cp
        (getFbRecordCount (some shortDscb1) (some device3380)) =
          ⟨none, [[0xC1]] ++ behind, false⟩) ∧
      datasetEtag (fun _ => true) (some shortFile)
        (getFbRecordCount (some shortDscb1) (some device3380)) = some ([[0xC1]] ++ behind) := by
  have hfilled : Filled shortDscb1 (blocksPerTrack device3380 shortDscb1.blksz.toNat) 1 1 :=
    ⟨by decide, by decide, by decide⟩
  exact recordCount_reads (by decide) (by decide) hfilled (by decide) rfl (by decide) rfl rfl rfl

end Mvsmf
