import Mvsmf.Dsapi.IspfStats
import Mvsmf.Dsapi.MemberMatch

/-!
# The scan of a PDS directory

`member_scan` reads a directory block by block into one buffer of 256 bytes and goes over the entries
of each. The length of an entry is in the entry, the used length of a block in the block, and a read
may bring less than a block. The model reads the buffer through `Block.take`, which tells an access
behind the buffer and one behind the bytes that were read; the scan has neither on any blocks, and on
a directory that is well formed it brings the members asked for.
-/

namespace Mvsmf

def PDS_DIR_BLKSIZE : Nat := 256

def PDS_DIR_ENT_FIXED : Nat := 12

/-- What one `fread` of a block brings. -/
structure BlockRead where
  bytes : List UInt8
  length_le : bytes.length ≤ PDS_DIR_BLKSIZE

/-- `blk`, of which the last read stored the first `len` bytes. -/
structure Block where
  bytes : List UInt8
  length_eq : bytes.length = PDS_DIR_BLKSIZE
  len : Nat
  len_le : len ≤ PDS_DIR_BLKSIZE

/-- An access of bytes the block does not have. -/
inductive Fault
  | outside
  | unread
  deriving DecidableEq, Repr

/-- The read stores from the start of the block on. -/
def Block.fread (blk : Block) (r : BlockRead) : Block where
  bytes := r.bytes ++ blk.bytes.drop r.bytes.length
  length_eq := by
    have := r.length_le
    rw [List.length_append, List.length_drop, blk.length_eq]
    omega
  len := r.bytes.length
  len_le := r.length_le

/-- The bytes of an entry from a position on. -/
def Block.take (blk : Block) (pos n : Nat) : Except Fault (List UInt8) :=
  if pos + n > PDS_DIR_BLKSIZE then .error .outside
  else if pos + n > blk.len then .error .unread
  else .ok ((blk.bytes.drop pos).take n)

/-- The used length the block names, held at what was read. -/
def Block.used (blk : Block) : Nat := min (halfwordAt blk.bytes 0) blk.len

/-- What is asked of a scan. -/
structure ScanRequest where
  startKey : Option (List UInt8)
  startAfter : Bool
  pattern : Option (List UInt8)
  page : UInt32
  base : Bool

/-- A member as it is written. -/
structure MemberItem where
  member : List UInt8
  stats : Option IspfStats
  deriving DecidableEq, Repr

structure ScanState where
  seen : Nat
  skipping : Bool
  items : List MemberItem

/-- One past the page, or `0` for no bound: `UINT_MAX` has none. -/
def ScanRequest.bound (req : ScanRequest) : Nat :=
  if 0 < req.page.toNat ∧ req.page.toNat < 0xFFFFFFFF then req.page.toNat + 1 else 0

/-- The name sorts before the start, or is the key of a start that goes on behind it. -/
def ScanRequest.below (req : ScanRequest) (name : List UInt8) : Bool :=
  match req.startKey with
  | none => false
  | some key =>
    let cmp := CLib.strcmp name key
    cmp == .lt || (req.startAfter && cmp == .eq)

def ScanRequest.accepts (req : ScanRequest) (name : List UInt8) : Bool :=
  match req.pattern with
  | none => true
  | some pat => memberMatch (unpadded name) pat

def END_MARK : List UInt8 := List.replicate 8 0xFF

/-- The entry at `pos`: the scan goes on behind it, or is at its end. -/
def scanEntry (req : ScanRequest) (blk : Block) (pos : Nat) (s : ScanState) :
    Except Fault ((Nat × ScanState) ⊕ ScanState) := do
  let name ← blk.take pos MAX_MEMBER_NAME
  if name = END_MARK then return .inr s
  let ind ← blk.take (pos + 11) 1
  let size := PDS_DIR_ENT_FIXED + ((ind.headD 0) &&& 0x1F).toNat * 2
  if s.skipping && req.below name then return .inl (pos + size, s)
  let s := { s with skipping := false }
  if req.accepts name = false then return .inl (pos + size, s)
  let s := { s with seen := s.seen + 1 }
  let s ←
    if req.page.toNat = 0 ∨ s.seen ≤ req.page.toNat then
      if req.base = true ∧ pos + size ≤ blk.used then do
        let entry ← blk.take pos size
        pure { s with items := s.items ++ [⟨unpadded name, ispfStatsParse entry⟩] }
      else pure { s with items := s.items ++ [⟨unpadded name, none⟩] }
    else pure s
  if 0 < req.bound ∧ req.bound ≤ s.seen then return .inr s
  return .inl (pos + size, s)

/-! ## No access goes wrong -/

theorem Block.take_ok {blk : Block} {pos n : Nat} (h : pos + n ≤ blk.len) :
    blk.take pos n = .ok ((blk.bytes.drop pos).take n) := by
  have := blk.len_le
  rw [Block.take, if_neg (by omega), if_neg (by omega)]

theorem Block.used_le (blk : Block) : blk.used ≤ blk.len := Nat.min_le_right _ _

/-- What the scan does with a member: whether it is at its end behind it. -/
def ScanRequest.turn (req : ScanRequest) (name : List UInt8) (stats : Option IspfStats)
    (s : ScanState) : Bool × ScanState :=
  if (s.skipping && req.below name) = true then (false, s)
  else if req.accepts name = false then (false, { s with skipping := false })
  else
    let items := if req.page.toNat = 0 ∨ s.seen + 1 ≤ req.page.toNat then
      s.items ++ [⟨unpadded name, stats⟩] else s.items
    (decide (0 < req.bound ∧ req.bound ≤ s.seen + 1), ⟨s.seen + 1, false, items⟩)

/-- The name, the size and the statistics of the entry at `pos`. -/
def Block.entryName (blk : Block) (pos : Nat) : List UInt8 :=
  (blk.bytes.drop pos).take MAX_MEMBER_NAME

def Block.entrySize (blk : Block) (pos : Nat) : Nat :=
  PDS_DIR_ENT_FIXED + ((((blk.bytes.drop (pos + 11)).take 1).headD 0) &&& 0x1F).toNat * 2

def Block.entryStats (req : ScanRequest) (blk : Block) (pos : Nat) : Option IspfStats :=
  if req.base = true ∧ pos + blk.entrySize pos ≤ blk.used then
    ispfStatsParse ((blk.bytes.drop pos).take (blk.entrySize pos))
  else none

/-- On bytes that are there a turn has no fault. -/
theorem scanEntry_eq (req : ScanRequest) {blk : Block} {pos : Nat} (s : ScanState)
    (h : pos + PDS_DIR_ENT_FIXED ≤ blk.used) :
    scanEntry req blk pos s = .ok (
      if blk.entryName pos = END_MARK then .inr s
      else
        let (ended, s') := req.turn (blk.entryName pos) (blk.entryStats req pos) s
        if ended then .inr s' else .inl (pos + blk.entrySize pos, s')) := by
  have hlen : pos + 12 ≤ blk.len := h.trans blk.used_le
  have hname : blk.take pos MAX_MEMBER_NAME = .ok (blk.entryName pos) :=
    Block.take_ok (by rw [MAX_MEMBER_NAME]; omega)
  have hind : blk.take (pos + 11) 1 = .ok ((blk.bytes.drop (pos + 11)).take 1) :=
    Block.take_ok (by omega)
  rw [scanEntry, hname, hind]
  simp only [bind, Except.bind, pure, Except.pure, ← Block.entrySize.eq_1]
  split
  · rfl
  · rw [ScanRequest.turn]
    split
    · rfl
    · split
      · rfl
      · by_cases hpage : req.page.toNat = 0 ∨ s.seen + 1 ≤ req.page.toNat
        · rw [if_pos hpage, if_pos hpage]
          by_cases hstats : req.base = true ∧ pos + blk.entrySize pos ≤ blk.used
          · have hentry : blk.take pos (blk.entrySize pos) =
                .ok ((blk.bytes.drop pos).take (blk.entrySize pos)) :=
              Block.take_ok (hstats.2.trans blk.used_le)
            rw [if_pos hstats, hentry, Block.entryStats, if_pos hstats]
            simp only [decide_eq_true_eq]
            split <;> rfl
          · rw [if_neg hstats, Block.entryStats, if_neg hstats]
            simp only [decide_eq_true_eq]
            split <;> rfl
        · rw [if_neg hpage, if_neg hpage]
          simp only [decide_eq_true_eq]
          split <;> rfl

theorem Block.entrySize_pos (blk : Block) (pos : Nat) : 0 < blk.entrySize pos :=
  Nat.lt_of_lt_of_le (by decide) (Nat.le_add_right _ _)

/-- The loop over the entries of a block: whether the scan is at its end. -/
def scanEntries (req : ScanRequest) (blk : Block) :
    Loop (Nat × ScanState) (Except Fault (Bool × ScanState)) where
  step := fun (pos, s) =>
    if pos + PDS_DIR_ENT_FIXED ≤ blk.used then
      match scanEntry req blk pos s with
      | .error f => .inr (.error f)
      | .ok (.inl next) => .inl next
      | .ok (.inr s') => .inr (.ok (true, s'))
    else .inr (.ok (false, s))
  measure := fun (pos, _) => blk.used - pos
  lowers := by
    rintro ⟨pos, s⟩ ⟨pos', s'⟩ h
    dsimp only at h ⊢
    split at h
    · next hused =>
      rw [scanEntry_eq _ _ hused] at h
      have := blk.entrySize_pos pos
      simp only [PDS_DIR_ENT_FIXED] at hused
      split at h
      · cases h
      · next hr =>
        cases h
        rw [Except.ok.injEq] at hr
        split at hr
        · cases hr
        · dsimp only at hr
          split at hr
          · cases hr
          · cases hr
            omega
      · cases h
    · cases h

/-- The blocks of the directory; a read of nothing is its end. -/
def scanBlocks (req : ScanRequest) : Block → List BlockRead → ScanState → Except Fault ScanState
  | _, [], s => .ok s
  | blk, r :: rest, s =>
    if r.bytes.length = 0 then .ok s
    else
      let blk := blk.fread r
      match (scanEntries req blk).exec (2, s) with
      | .error f => .error f
      | .ok (true, s) => .ok s
      | .ok (false, s) => scanBlocks req blk rest s

/-- `member_scan`, with what it wrote. `ferror` is what the stream says behind the last read. -/
def memberScan (req : ScanRequest) (blk : Block) (reads : List BlockRead) (ferror : Bool) :
    Except Fault (Int × List MemberItem) := do
  let s ← scanBlocks req blk reads ⟨0, req.startKey.isSome, []⟩
  return (if ferror then -1 else s.seen, s.items)

theorem scanEntries_ok (req : ScanRequest) (blk : Block) (p : Nat × ScanState) :
    ∃ r, (scanEntries req blk).exec p = .ok r := by
  refine (scanEntries req blk).rule (P := fun _ r => ∃ r', r = .ok r') ?_ ?_ p
  · rintro ⟨pos, s⟩ r h
    simp only [scanEntries] at h
    split at h
    · next hused =>
      rw [scanEntry_eq _ _ hused] at h
      split at h
      · next herr => cases herr
      · cases h
      · cases h
        exact ⟨_, rfl⟩
    · cases h
      exact ⟨_, rfl⟩
  · rintro s s' - ih
    exact ih

/-- Whatever the blocks hold, no byte behind the buffer or behind what was read is taken. -/
theorem scanBlocks_ok (req : ScanRequest) (blk : Block) (reads : List BlockRead) (s : ScanState) :
    ∃ s', scanBlocks req blk reads s = .ok s' := by
  induction reads generalizing blk s with
  | nil => exact ⟨s, rfl⟩
  | cons r rest ih =>
    rw [scanBlocks]
    split
    · exact ⟨s, rfl⟩
    · obtain ⟨⟨ended, s'⟩, hexec⟩ := scanEntries_ok req (blk.fread r) (2, s)
      simp only [hexec]
      cases ended with
      | true => exact ⟨s', rfl⟩
      | false => exact ih _ s'

/-! ## Well-formed directories -/

/-- An entry that is a member. -/
structure DirEntry where
  name : List UInt8
  ttr : List UInt8
  ind : UInt8
  udata : List UInt8
  name_length : name.length = MAX_MEMBER_NAME
  notMark : name ≠ END_MARK
  ttr_length : ttr.length = 3
  udata_length : udata.length = (ind &&& 0x1F).toNat * 2

def DirEntry.bytes (e : DirEntry) : List UInt8 := e.name ++ e.ttr ++ [e.ind] ++ e.udata

def entriesBytes (es : List DirEntry) : List UInt8 := es.flatMap DirEntry.bytes

def halfword (n : Nat) : List UInt8 := [UInt8.ofNat (n / 256), UInt8.ofNat n]

/-- The entries of a directory over its blocks: a block has whole entries behind its used length, the
last one the end mark behind them, which anything may follow. -/
inductive Directory : List BlockRead → List DirEntry → Prop
  | done : Directory [] []
  | block {r : BlockRead} {es es' : List DirEntry} {rest : List BlockRead} {pad : List UInt8} :
    r.bytes = halfword (2 + (entriesBytes es).length) ++ entriesBytes es ++ pad →
    Directory rest es' → Directory (r :: rest) (es ++ es')
  | last {r : BlockRead} {es : List DirEntry} {rest : List BlockRead} {used : Nat}
    {tail : List UInt8} : r.bytes = halfword used ++ entriesBytes es ++ END_MARK ++ tail →
    2 + (entriesBytes es).length + PDS_DIR_ENT_FIXED ≤ used → used ≤ r.bytes.length →
    Directory (r :: rest) es

/-- A member as the scan writes it. -/
def ScanRequest.item (req : ScanRequest) (e : DirEntry) : MemberItem :=
  ⟨unpadded e.name, if req.base then ispfStatsParse e.bytes else none⟩

/-- The scan over the members alone. -/
def scanList (req : ScanRequest) : ScanState → List DirEntry → Bool × ScanState
  | s, [] => (false, s)
  | s, e :: es =>
    match req.turn e.name (req.item e).stats s with
    | (true, s') => (true, s')
    | (false, s') => scanList req s' es

theorem scanList_append (req : ScanRequest) (s : ScanState) (es es' : List DirEntry) :
    scanList req s (es ++ es') =
      match scanList req s es with
      | (true, s') => (true, s')
      | (false, s') => scanList req s' es' := by
  induction es generalizing s with
  | nil => rfl
  | cons e es ih =>
    rw [List.cons_append, scanList, scanList]
    rcases req.turn e.name (req.item e).stats s with ⟨_ | _, s'⟩
    · exact ih s'
    · rfl

section

variable {blk : Block} {pos : Nat} {e : DirEntry} {tail : List UInt8}
  (h : blk.bytes.drop pos = e.bytes ++ tail)
include h

theorem entryName_eq : blk.entryName pos = e.name := by
  rw [Block.entryName, h, DirEntry.bytes, List.append_assoc, List.append_assoc, List.append_assoc,
    List.take_append_of_le_length e.name_length.ge, List.take_of_length_le e.name_length.le]

theorem entrySize_eq : blk.entrySize pos = e.bytes.length := by
  have hfront : (e.name ++ e.ttr).length = 11 := by
    rw [List.length_append, e.name_length, e.ttr_length]
    rfl
  have hind : (blk.bytes.drop (pos + 11)).take 1 = [e.ind] := by
    rw [← List.drop_drop, h, DirEntry.bytes, List.append_assoc, List.append_assoc, ← hfront,
      List.drop_left]
    rfl
  rw [Block.entrySize, hind, DirEntry.bytes, List.length_append, List.length_append, hfront,
    e.udata_length]
  rfl

theorem entryStats_eq {req : ScanRequest} (hused : pos + e.bytes.length ≤ blk.used) :
    blk.entryStats req pos = (req.item e).stats := by
  rw [Block.entryStats, entrySize_eq h, h, List.take_left, ScanRequest.item]
  simp only [and_iff_left hused]

end

theorem DirEntry.fixed_le (e : DirEntry) : PDS_DIR_ENT_FIXED ≤ e.bytes.length := by
  rw [DirEntry.bytes, List.length_append, List.length_append, List.length_append, e.name_length,
    e.ttr_length, MAX_MEMBER_NAME, PDS_DIR_ENT_FIXED, List.length_singleton]
  omega

/-- The loop over entries that are there goes on behind them, or is at its end with them. -/
theorem scanEntries_members (req : ScanRequest) {blk : Block} {es : List DirEntry} {pos : Nat}
    {s : ScanState} {tail : List UInt8} (h : blk.bytes.drop pos = entriesBytes es ++ tail)
    (hused : pos + (entriesBytes es).length ≤ blk.used) :
    (scanEntries req blk).exec (pos, s) =
      match scanList req s es with
      | (true, s') => .ok (true, s')
      | (false, s') => (scanEntries req blk).exec (pos + (entriesBytes es).length, s') := by
  induction es generalizing pos s with
  | nil => rfl
  | cons e es ih =>
    rw [entriesBytes, List.flatMap_cons, List.append_assoc] at h
    rw [entriesBytes, List.flatMap_cons, List.length_append] at hused ⊢
    have hfixed := e.fixed_le
    have hstep := scanEntry_eq req s (show pos + PDS_DIR_ENT_FIXED ≤ blk.used by omega)
    rw [entryName_eq h, if_neg e.notMark, entrySize_eq h, entryStats_eq h (by omega)] at hstep
    rw [scanList]
    rcases hturn : req.turn e.name (req.item e).stats s with ⟨_ | _, s'⟩
    · rw [hturn] at hstep
      have hnext : (scanEntries req blk).step (pos, s) = .inl (pos + e.bytes.length, s') := by
        simp only [scanEntries, hstep]
        rw [if_pos (by omega)]
        rfl
      rw [Loop.exec_next _ hnext, ih _ (by rw [entriesBytes]; omega), Nat.add_assoc]
      · rfl
      · rw [← List.drop_drop, h, List.drop_left]
        rfl
    · rw [hturn] at hstep
      apply Loop.exec_done
      simp only [scanEntries, hstep]
      rw [if_pos (by omega)]
      rfl

theorem halfwordAt_halfword {n : Nat} (h : n < 65536) (rest : List UInt8) :
    halfwordAt (halfword n ++ rest) 0 = n := by
  rw [halfwordAt, halfword]
  simp only [List.cons_append, List.nil_append, List.getD_cons_zero, List.getD_cons_succ,
    UInt8.toNat_ofNat']
  omega

theorem fread_bytes (blk : Block) (r : BlockRead) :
    (blk.fread r).bytes = r.bytes ++ blk.bytes.drop r.bytes.length := rfl

/-- What the loop leaves behind a read with a used length and the entries in it. -/
theorem scanEntries_read (req : ScanRequest) (blk : Block) {r : BlockRead} {es : List DirEntry}
    {used : Nat} {tail : List UInt8} (s : ScanState)
    (hr : r.bytes = halfword used ++ entriesBytes es ++ tail)
    (hes : 2 + (entriesBytes es).length ≤ used) (hused : used ≤ r.bytes.length) :
    (blk.fread r).used = used ∧
    (scanEntries req (blk.fread r)).exec (2, s) =
      match scanList req s es with
      | (true, s') => .ok (true, s')
      | (false, s') =>
        (scanEntries req (blk.fread r)).exec (2 + (entriesBytes es).length, s') := by
  have hle := r.length_le
  simp only [PDS_DIR_BLKSIZE] at hle
  have hbytes : (blk.fread r).bytes =
      halfword used ++ (entriesBytes es ++ (tail ++ blk.bytes.drop r.bytes.length)) := by
    rw [fread_bytes]
    conv_lhs => enter [1]; rw [hr]
    rw [List.append_assoc, List.append_assoc]
  have hblk : (blk.fread r).used = used := by
    rw [Block.used, hbytes, halfwordAt_halfword (by omega)]
    exact Nat.min_eq_left hused
  refine ⟨hblk, ?_⟩
  apply scanEntries_members
  · rw [hbytes]
    exact List.drop_left' rfl
  · rw [hblk]
    exact hes

/-- The blocks of a directory are scanned as its members are. -/
theorem scanBlocks_directory (req : ScanRequest) {reads : List BlockRead} {es : List DirEntry}
    (h : Directory reads es) (blk : Block) (s : ScanState) :
    scanBlocks req blk reads s = .ok (scanList req s es).2 := by
  induction h generalizing blk s with
  | done => rfl
  | @block r es es' rest pad hr hrest ih =>
    have hlen : r.bytes.length = 2 + (entriesBytes es).length + pad.length := by
      rw [hr, List.length_append, List.length_append]
      rfl
    obtain ⟨hused, hexec⟩ := scanEntries_read req blk s hr (Nat.le_refl _) (by omega)
    rw [scanBlocks, if_neg (by omega), scanList_append]
    simp only [hexec]
    rcases scanList req s es with ⟨_ | _, s'⟩
    · have hend : (scanEntries req (blk.fread r)).exec (2 + (entriesBytes es).length, s') =
          .ok (false, s') := by
        apply Loop.exec_done
        simp only [scanEntries, hused]
        exact if_neg (by rw [PDS_DIR_ENT_FIXED]; omega)
      simp only [hend]
      exact ih _ s'
    · rfl
  | @last r es rest used tail hr hes hle =>
    rw [List.append_assoc] at hr
    obtain ⟨hused, hexec⟩ := scanEntries_read req blk s hr (by omega) hle
    rw [scanBlocks, if_neg (by omega)]
    simp only [hexec]
    rcases scanList req s es with ⟨_ | _, s'⟩
    · have hmark : (blk.fread r).entryName (2 + (entriesBytes es).length) = END_MARK := by
        have hfront : (halfword used ++ entriesBytes es).length = 2 + (entriesBytes es).length :=
          List.length_append
        rw [Block.entryName, fread_bytes, ← hfront]
        conv_lhs => enter [2, 2, 1]; rw [hr]
        rw [List.append_assoc, List.drop_left]
        rfl
      have hend : (scanEntries req (blk.fread r)).exec (2 + (entriesBytes es).length, s') =
          .ok (true, s') := by
        apply Loop.exec_done
        simp only [scanEntries, scanEntry_eq _ _ (show _ ≤ (blk.fread r).used by rw [hused]; exact hes)]
        rw [if_pos (by rw [hused]; exact hes), if_pos hmark]
      simp only [hend]
    · rfl

/-! ## The members asked for -/

/-- The member is not below the start and matches the pattern. -/
def ScanRequest.wanted (req : ScanRequest) (e : DirEntry) : Bool :=
  !req.below e.name && req.accepts e.name

theorem ScanRequest.bound_cases (req : ScanRequest) :
    req.bound = 0 ∧ (req.page.toNat = 0 ∨ req.page.toNat = 0xFFFFFFFF) ∨
      req.bound = req.page.toNat + 1 ∧ 0 < req.page.toNat := by
  have := req.page.toNat_lt
  unfold ScanRequest.bound
  split
  · omega
  · omega

/-- Before the end of the page what the scan has seen is below its bound. -/
def ScanRequest.Open (req : ScanRequest) (s : ScanState) : Prop := req.bound = 0 ∨ s.seen < req.bound

/-- The scan over members, of which those below the start come first, takes those asked for. -/
theorem scanList_eq (req : ScanRequest) {es : List DirEntry} {s : ScanState} (hopen : req.Open s)
    (hord : es.Pairwise fun a b => req.below b.name = true → req.below a.name = true)
    (hskip : s.skipping = false → ∀ e ∈ es, req.below e.name = false) :
    let found := es.filter req.wanted
    let page := req.page.toNat
    (scanList req s es).2.seen =
        (if req.bound = 0 then s.seen + found.length else min (s.seen + found.length) req.bound) ∧
      (scanList req s es).2.items =
        s.items ++ (if page = 0 then found else found.take (page - s.seen)).map req.item := by
  induction es generalizing s with
  | nil =>
    rcases hopen with h | h
    · simp [scanList, h]
    · simp [scanList, Nat.min_eq_left h.le, Nat.ne_of_gt (Nat.zero_lt_of_lt h)]
  | cons e es ih =>
    obtain ⟨hhead, htail⟩ := List.pairwise_cons.mp hord
    have hskip' : s.skipping = false → ∀ e ∈ es, req.below e.name = false := fun h e' he' =>
      hskip h e' (List.mem_cons_of_mem _ he')
    rw [scanList]
    by_cases hbelow : (s.skipping && req.below e.name) = true
    · have hno : req.wanted e = false := by
        rw [ScanRequest.wanted, (Bool.and_eq_true_iff.mp hbelow).2]
        rfl
      rw [ScanRequest.turn, if_pos hbelow, List.filter_cons_of_neg (by simp [hno])]
      exact ih hopen htail hskip'
    · have hfrom : req.below e.name = false := by
        cases hs : s.skipping with
        | false => exact hskip hs e List.mem_cons_self
        | true => simpa [hs] using hbelow
      have hrest : ∀ e ∈ es, req.below e.name = false := by
        intro e' he'
        by_contra hne
        rw [hhead e' he' (by simpa using hne)] at hfrom
        cases hfrom
      rw [ScanRequest.turn, if_neg hbelow]
      by_cases hacc : req.accepts e.name = false
      · have hno : req.wanted e = false := by rw [ScanRequest.wanted, hacc, Bool.and_false]
        rw [if_pos hacc, List.filter_cons_of_neg (by simp [hno])]
        exact ih hopen htail fun _ => hrest
      · have hyes : req.wanted e = true := by
          rw [ScanRequest.wanted, hfrom]
          simpa using hacc
        rw [if_neg hacc, List.filter_cons_of_pos hyes]
        generalize es.filter req.wanted = found at ih ⊢
        have hbound := req.bound_cases
        rw [ScanRequest.Open] at hopen
        dsimp only
        by_cases hend : 0 < req.bound ∧ req.bound ≤ s.seen + 1
        · -- the match one past the page: it is counted and not written
          rw [decide_eq_true hend, if_neg (by omega), if_neg (by omega), if_neg (by omega),
            show req.page.toNat - s.seen = 0 by omega, List.take_zero, List.length_cons]
          exact ⟨by dsimp only; omega, (List.append_nil _).symm⟩
        · obtain ⟨hseen, hitems⟩ := ih (s := ⟨s.seen + 1, false,
            if req.page.toNat = 0 ∨ s.seen + 1 ≤ req.page.toNat then
              s.items ++ [req.item e] else s.items⟩) (show _ ∨ _ by dsimp only; omega) htail
            fun _ => hrest
          rw [decide_eq_false hend]
          refine ⟨hseen.trans ?_, hitems.trans ?_⟩
          · dsimp only
            rw [List.length_cons, Nat.add_assoc, Nat.add_comm 1]
          · dsimp only
            by_cases h0 : req.page.toNat = 0
            · rw [if_pos (.inl h0), if_pos h0, if_pos h0, List.append_assoc]
              rfl
            · rw [if_neg h0, if_neg h0]
              by_cases hroom : s.seen + 1 ≤ req.page.toNat
              · rw [if_pos (.inr hroom), show req.page.toNat - s.seen =
                  (req.page.toNat - (s.seen + 1)) + 1 by omega, List.take_succ_cons,
                  List.append_assoc]
                rfl
              · rw [if_neg (by omega), Nat.sub_eq_zero_of_le (by omega),
                  Nat.sub_eq_zero_of_le (by omega)]
                rfl

/-- What `member_scan` is asked for by the handler's start value. -/
def startOf (start : Option (List UInt8)) : Option (List UInt8) × Bool :=
  match makeQueryKey start (MAX_MEMBER_NAME + 1) with
  | none => (none, false)
  | some (key, cut) => (some (Padding.record HostChar.blank MAX_MEMBER_NAME key), cut)

/-- A name is not below a start value, the shorter of them filled up with blanks. -/
def NotBelow (value name : List UInt8) : Prop :=
  Padding.record HostChar.blank name.length value ≤ Padding.record HostChar.blank value.length name

theorem record_eq_self {b : UInt8} {s : List UInt8} {width : Nat} (h : width ≤ s.length) :
    Padding.record b width s = s := by
  rw [Padding.record, Nat.sub_eq_zero_of_le h, List.replicate_zero, List.append_nil]

/-- The key skips exactly the names below the whole start value. -/
theorem below_startOf {req : ScanRequest} {start : Option (List UInt8)} {name : List UInt8}
    (hreq : (req.startKey, req.startAfter) = startOf start)
    (hblank : ∀ c ∈ folded (start.getD []), HostChar.blank < c)
    (hname : name.length = MAX_MEMBER_NAME) :
    req.below name = false ↔ (folded (start.getD []) = [] ∨ NotBelow (folded (start.getD [])) name) := by
  rw [startOf] at hreq
  cases hkey : makeQueryKey start (MAX_MEMBER_NAME + 1) with
  | none =>
    rw [hkey] at hreq
    obtain ⟨hnone, -⟩ := Prod.mk.inj hreq
    rw [ScanRequest.below, hnone]
    exact iff_of_true rfl (.inl (makeQueryKey_eq_none_iff.mp hkey))
  | some k =>
    obtain ⟨key, cut⟩ := k
    rw [hkey] at hreq
    obtain ⟨hsome, hafter⟩ := Prod.mk.inj hreq
    obtain ⟨rest, hvalue, hcut, hlen, hle⟩ := makeQueryKey_eq_some hkey
    have hne : folded (start.getD []) ≠ [] := by
      rw [ne_eq, ← makeQueryKey_eq_none_iff, hkey]
      nofun
    rw [or_iff_right hne, NotBelow, hname, ScanRequest.below, hsome, hafter, hvalue]
    rw [hvalue] at hblank
    cases cut with
    | false =>
      obtain rfl : rest = [] := by
        by_contra hrest
        cases hcut.mpr hrest
      rw [List.append_nil, record_eq_self (hle.trans hname.ge), ← not_lt, ← CLib.strcmp_lt_iff]
      generalize Padding.record HostChar.blank MAX_MEMBER_NAME key = k
      cases h : CLib.strcmp name k <;> simp [h]
    | true =>
      -- the key is the first eight characters, and the value goes on with one above the blank
      obtain ⟨c, rest, rfl⟩ := List.exists_cons_of_ne_nil (hcut.mp rfl)
      have hkeylen : key.length = MAX_MEMBER_NAME := hlen rfl
      have hc : HostChar.blank < c := hblank c (by simp)
      have hrest : ∀ n, ¬ c :: rest ≤ List.replicate n HostChar.blank := by
        intro n
        rw [not_le]
        cases n with
        | zero => exact List.nil_lt_cons c rest
        | succ n => exact List.cons_lt_cons_iff.mpr (.inl hc)
      rw [record_eq_self hkeylen.ge, record_eq_self (by rw [List.length_append]; omega),
        Padding.record, CLib.append_le_append_iff (hkeylen.trans hname.symm),
        or_iff_left fun h => hrest _ h.2, ← not_le, ← CLib.strcmp_isLE_iff]
      cases h : CLib.strcmp name key <;> simp [h]

/-- Names in ascending order: those below the start come first. -/
theorem below_ascending (req : ScanRequest) {a b : DirEntry} (hab : a.name ≤ b.name)
    (hb : req.below b.name = true) : req.below a.name = true := by
  unfold ScanRequest.below at hb ⊢
  split at hb
  · cases hb
  · next key hkey =>
    dsimp only at hb ⊢
    rw [Bool.or_eq_true, Bool.and_eq_true, beq_iff_eq, beq_iff_eq, CLib.strcmp_lt_iff,
      CLib.strcmp_eq_iff] at hb ⊢
    rcases hb with hlt | ⟨hafter, rfl⟩
    · exact .inl (hab.trans_lt hlt)
    · rcases hab.lt_or_eq with hlt | heq
      · exact .inl hlt
      · exact .inr ⟨hafter, heq⟩

/-- A block has no room for more than twenty-one members. -/
theorem Directory.length_le {reads : List BlockRead} {es : List DirEntry} (h : Directory reads es) :
    es.length ≤ 21 * reads.length := by
  have hfixed : ∀ es : List DirEntry, 12 * es.length ≤ (entriesBytes es).length := by
    intro es
    induction es with
    | nil => exact Nat.zero_le _
    | cons e es ih =>
      have := e.fixed_le
      rw [entriesBytes] at ih
      rw [entriesBytes, List.flatMap_cons, List.length_append, List.length_cons]
      simp only [PDS_DIR_ENT_FIXED] at this
      omega
  induction h with
  | done => exact Nat.le_refl _
  | @block r es es' rest pad hr hrest ih =>
    have := hfixed es
    have hle := r.length_le
    rw [hr] at hle
    simp only [List.length_append, List.length_cons, PDS_DIR_BLKSIZE] at hle ih ⊢
    omega
  | @last r es rest used tail hr hes hle =>
    have := hfixed es
    have hblk := r.length_le
    rw [List.length_cons]
    simp only [PDS_DIR_BLKSIZE, PDS_DIR_ENT_FIXED] at hblk hes
    omega

instance (value name : List UInt8) : Decidable (NotBelow value name) :=
  inferInstanceAs (Decidable (_ ≤ _))

/-- The member is not below the full start value and `member_match` accepts it. -/
def ScanRequest.asked (req : ScanRequest) (start : Option (List UInt8)) (e : DirEntry) : Bool :=
  let value := folded (start.getD [])
  decide (value = [] ∨ NotBelow value e.name) && req.accepts e.name

theorem wanted_eq_asked {req : ScanRequest} {start : Option (List UInt8)}
    (hreq : (req.startKey, req.startAfter) = startOf start)
    (hblank : ∀ c ∈ folded (start.getD []), HostChar.blank < c) :
    req.wanted = req.asked start := by
  funext e
  rw [ScanRequest.wanted, ScanRequest.asked]
  congr 1
  rw [Bool.eq_iff_iff, Bool.not_eq_true', decide_eq_true_eq]
  exact below_startOf hreq hblank e.name_length

/-- On any blocks the scan ends and takes no byte that is not there. On a well-formed directory it
writes the first `page` members asked for in their order, and answers how many there are up to one
past the page. A page of `UINT_MAX` has no bound, and there are not more members than blocks with an
address can hold. -/
theorem memberScan_exact :
    (∀ req blk reads ferror, ∃ r, memberScan req blk reads ferror = .ok r) ∧
      ∀ (start : Option (List UInt8)) (req : ScanRequest) (blk : Block) (reads : List BlockRead)
        (es : List DirEntry),
        (req.startKey, req.startAfter) = startOf start →
        (∀ c ∈ folded (start.getD []), HostChar.blank < c) →
        Directory reads es → (es.Pairwise fun a b => a.name ≤ b.name) →
        (req.page.toNat = 0xFFFFFFFF → reads.length ≤ 2 ^ 24) →
        let found := es.filter (req.asked start)
        let page := req.page.toNat
        memberScan req blk reads false = .ok (
          if page = 0 then (found.length : Int) else min found.length (page + 1),
          (if page = 0 then found else found.take page).map req.item) := by
  constructor
  · intro req blk reads ferror
    obtain ⟨s, hs⟩ := scanBlocks_ok req blk reads ⟨0, req.startKey.isSome, []⟩
    rw [memberScan, hs]
    exact ⟨_, rfl⟩
  · intro start req blk reads es hreq hblank hdir hord hmax
    have hskip : req.startKey.isSome = false → ∀ e ∈ es, req.below e.name = false := by
      intro h e _
      rw [Option.isSome_eq_false_iff, Option.isNone_iff_eq_none] at h
      rw [ScanRequest.below, h]
    have hopen : req.Open ⟨0, req.startKey.isSome, []⟩ := Nat.eq_zero_or_pos req.bound
    obtain ⟨hseen, hitems⟩ :=
      scanList_eq req hopen (hord.imp fun hab => below_ascending req hab) hskip
    have hcount : (es.filter req.wanted).length ≤ 21 * reads.length :=
      (List.length_filter_le _ _).trans hdir.length_le
    rw [wanted_eq_asked hreq hblank] at hseen hitems hcount
    simp only [Nat.zero_add, Nat.sub_zero, List.nil_append] at hseen hitems
    rw [memberScan, scanBlocks_directory req hdir]
    simp only [bind, Except.bind, pure, Except.pure, hseen, hitems]
    clear hseen hitems
    generalize es.filter (req.asked start) = found at hcount ⊢
    refine congrArg Except.ok (Prod.ext ?_ rfl)
    dsimp only
    rw [if_neg nofun]
    have hpage := req.page.toNat_lt
    rcases req.bound_cases with ⟨hb, h0 | hall⟩ | ⟨hb, hpos⟩
    · rw [if_pos hb, if_pos h0]
    · have := hmax hall
      rw [if_pos hb, if_neg (by omega)]
      omega
    · rw [if_neg (by omega), if_neg (by omega), hb]
      omega

/-- A member of one letter without user data. -/
def letterEntry (b : UInt8) (h : b ≠ 0xFF) : DirEntry where
  name := b :: List.replicate 7 0x40
  ttr := [0, 0, 1]
  ind := 0
  udata := []
  name_length := rfl
  notMark heq := h (List.cons.inj heq).1
  ttr_length := rfl
  udata_length := rfl

def smallMembers : List DirEntry := [letterEntry 0xC1 (by decide), letterEntry 0xC2 (by decide)]

/-- The directory of `A` and `B`. -/
def smallRead : BlockRead where
  bytes := halfword 38 ++ entriesBytes smallMembers ++ END_MARK ++ [0, 0, 0, 0]
  length_le := by decide

/-- The buffer before the first read. -/
def freshBlock : Block where
  bytes := List.replicate PDS_DIR_BLKSIZE 0
  length_eq := List.length_replicate
  len := 0
  len_le := Nat.zero_le _

/-- One member from `B` on. -/
def fromB : ScanRequest where
  startKey := (startOf (some [0xC2])).1
  startAfter := (startOf (some [0xC2])).2
  pattern := none
  page := 1
  base := false

theorem memberScan_exact_small :
    memberScan fromB freshBlock [smallRead] false = .ok (1, [⟨[0xC2], none⟩]) := by
  refine memberScan_exact.2 (some [0xC2]) fromB freshBlock [smallRead] smallMembers rfl ?_
    (.last rfl (by decide) (by decide)) (by decide) nofun
  intro c hc
  rw [List.mem_singleton.mp (show c ∈ [0xC2] from hc)]
  decide

end Mvsmf
