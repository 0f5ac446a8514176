import Mvsmf.Jobs.Submit
import Mvsmf.Lib.Blocks

/-!
# The line table of a submitted deck

`jclines.c` keeps the lines of a deck in one block of slots and an array of pointers to them, and
doubles both. The sizes are counted as `size_t` and the offset of a slot as `int`, 32 bits each; where
an `int` overflows, a block is accessed outside its cells or `realloc` is asked for nothing, what
happens is not determined, and the call gives no result here.
-/

namespace Mvsmf

open Storage (slice realloc Realloc ReallocAnswer)

def LINE_STRIDE : Nat := 81
def PTR_SIZE : Nat := 4

/-- How many values a `size_t` has. -/
def SIZE_T : Nat := 4294967296

/-- A pointer into a block. -/
structure LinePtr where
  block : Nat
  off : Nat
  deriving DecidableEq

structure JclLines where
  live : Finset Nat
  lines : Storage.Block LinePtr
  linesBuf : Storage.Block UInt8
  capacity : Nat

/-- A call of `grow_lines_arrays`, with the answers of its two `realloc`s. -/
structure Growth where
  required : Int
  linesAnswer : ReallocAnswer LinePtr
  bufAnswer : ReallocAnswer UInt8

/-- `new_lines[i] = new_buf + (i * LINE_STRIDE)` -/
def setSlot (newBuf : Nat) (newLines : List LinePtr) (i : Nat) : Option (List LinePtr) :=
  if i * LINE_STRIDE ≤ INT_MAX ∧ i < newLines.length then
    some (newLines.set i ⟨newBuf, i * LINE_STRIDE⟩)
  else none

/-- `grow_lines_arrays`: what it returns, and the table it leaves. -/
def JclLines.grow (t : JclLines) (g : Growth) : Option (Int × JclLines) :=
  if g.required ≤ t.capacity then some (0, t)
  else
    match doubledCapacity g.required.toNat g.required.toNat t.capacity with
    | none => some (-1, t)
    | some newCap =>
      match realloc t.live t.lines (newCap * PTR_SIZE % SIZE_T / PTR_SIZE) g.linesAnswer with
      | .undetermined => none
      | .refused => some (-1, t)
      | .granted live newLines =>
        match realloc live t.linesBuf (newCap * LINE_STRIDE % SIZE_T) g.bufAnswer with
        | .undetermined => none
        | .refused => some (-1, { t with live := live, lines := newLines })
        | .granted live newBuf =>
          match newBuf.write (t.capacity * LINE_STRIDE % SIZE_T)
              (List.replicate ((newCap - t.capacity) * LINE_STRIDE % SIZE_T) 0) with
          | none => none
          | some newBuf =>
            match (List.range newCap).foldlM (setSlot newBuf.id) newLines.cells with
            | none => none
            | some slots => some (0, ⟨live, ⟨newLines.id, slots⟩, newBuf, newCap⟩)

/-- Bytes stored through the pointer of a line. -/
def JclLines.store (t : JclLines) (i : Nat) (data : List UInt8) : Option JclLines :=
  match t.lines.cells[i]? with
  | none => none
  | some p =>
    if p.block = t.linesBuf.id then
      (t.linesBuf.write p.off data).map fun linesBuf => { t with linesBuf := linesBuf }
    else none

/-- The slot that the pointer of a line addresses. -/
def JclLines.line (t : JclLines) (i : Nat) : Option (List UInt8) :=
  match t.lines.cells[i]? with
  | none => none
  | some p => if p.block = t.linesBuf.id then some (slice t.linesBuf.cells p.off LINE_STRIDE) else none

/-! ## Consistency -/

structure JclLines.Consistent (t : JclLines) : Prop where
  positive : 0 < t.capacity
  int : t.capacity ≤ INT_MAX
  slots : ∀ i < t.capacity, t.lines.cells[i]? = some ⟨t.linesBuf.id, i * LINE_STRIDE⟩
  room : t.capacity * LINE_STRIDE ≤ t.linesBuf.cells.length
  lines_live : t.lines.id ∈ t.live
  buf_live : t.linesBuf.id ∈ t.live
  apart : t.lines.id ≠ t.linesBuf.id

/-- The blocks that are not the table's. -/
def JclLines.others (t : JclLines) : Finset Nat := (t.live.erase t.lines.id).erase t.linesBuf.id

/-- What a call leaves of a table. -/
structure LinesGrown (t t' : JclLines) (required rc : Int) : Prop where
  consistent : t'.Consistent
  larger : t.capacity ≤ t'.capacity
  earlier : ∀ i < t.capacity, t'.line i = t.line i
  empty : ∀ i, t.capacity ≤ i → i < t'.capacity → t'.line i = some (List.replicate LINE_STRIDE 0)
  answer : rc = 0 ∨ rc = -1
  success : rc = 0 → required ≤ t'.capacity
  failure : rc = -1 → t'.capacity = t.capacity
  freed : Storage.FreedOnce t'.live t'.lines.id t'.linesBuf.id
  others : t'.others = t.others

/-- The blocks move to where none are. -/
def Growth.Admissible (g : Growth) (t : JclLines) : Prop :=
  g.linesAnswer.Admissible t.live t.lines ∧
    ∀ id fill, g.linesAnswer = some (id, fill) →
      g.bufAnswer.Admissible (insert id (t.live.erase t.lines.id)) t.linesBuf

/-- The largest capacity whose slots have an `int` as offset. -/
def MAX_CAPACITY : Nat := INT_MAX / LINE_STRIDE + 1

/-- The new capacity makes no size and no offset overflow where that is seen. -/
def Growth.Fits (g : Growth) (t : JclLines) : Prop :=
  t.capacity < g.required → ∀ newCap,
    doubledCapacity g.required.toNat g.required.toNat t.capacity = some newCap →
      match g.linesAnswer, g.bufAnswer with
      | none, _ => newCap * PTR_SIZE % SIZE_T / PTR_SIZE ≠ 0
      | some _, none => t.capacity ≤ newCap * PTR_SIZE % SIZE_T / PTR_SIZE
      | some _, some _ => newCap ≤ MAX_CAPACITY

/-! ## Growing -/

theorem doubledCapacity_spec {required fuel capacity newCap : Nat}
    (h : doubledCapacity required fuel capacity = some newCap) (hint : capacity ≤ INT_MAX)
    (hpos : 0 < capacity) (hfuel : required ≤ capacity + fuel) :
    capacity ≤ newCap ∧ newCap ≤ INT_MAX ∧ required ≤ newCap := by
  induction fuel generalizing capacity with
  | zero =>
    cases h
    exact ⟨Nat.le_refl _, hint, hfuel⟩
  | succ fuel ih =>
    rw [doubledCapacity] at h
    split at h
    · split at h
      · cases h
      · obtain ⟨hle, hmax, hreq⟩ := ih h (by omega) (by omega) (by omega)
        exact ⟨by omega, hmax, hreq⟩
    · cases h
      exact ⟨Nat.le_refl _, hint, by omega⟩

theorem lt_maxCapacity {i : Nat} : i < MAX_CAPACITY ↔ i * LINE_STRIDE ≤ INT_MAX := by
  unfold MAX_CAPACITY LINE_STRIDE INT_MAX
  omega

/-- The loop sets the slots one by one. -/
theorem foldlM_setSlot (newBuf : Nat) (newLines : List LinePtr) {k : Nat} (hk : k ≤ newLines.length)
    (hmax : k ≤ MAX_CAPACITY) :
    (List.range k).foldlM (setSlot newBuf) newLines =
      some ((List.range k).map (fun i => ⟨newBuf, i * LINE_STRIDE⟩) ++ newLines.drop k) := by
  induction k with
  | zero => rfl
  | succ k ih =>
    have hlen : ((List.range k).map fun i => (⟨newBuf, i * LINE_STRIDE⟩ : LinePtr)).length = k := by
      rw [List.length_map, List.length_range]
    have hdrop : newLines.drop k = newLines[k] :: newLines.drop (k + 1) :=
      List.drop_eq_getElem_cons hk
    have hset : k * LINE_STRIDE ≤ INT_MAX ∧
        k < ((List.range k).map (fun i => (⟨newBuf, i * LINE_STRIDE⟩ : LinePtr)) ++
          newLines.drop k).length := by
      refine ⟨lt_maxCapacity.mp hmax, ?_⟩
      rw [List.length_append, hlen, List.length_drop]
      omega
    rw [List.range_succ, List.foldlM_append, ih (by omega) (by omega)]
    show setSlot newBuf _ k >>= pure = _
    rw [bind_pure, setSlot, if_pos hset, List.map_append, List.set_append_right _ _ (Nat.le_of_eq hlen),
      hlen, Nat.sub_self, hdrop, List.append_assoc]
    rfl

/-- Where it comes through, the last offset was an `int`. -/
theorem le_maxCapacity_of_foldlM {newBuf k : Nat} {newLines slots : List LinePtr}
    (h : (List.range k).foldlM (setSlot newBuf) newLines = some slots) : k ≤ MAX_CAPACITY := by
  cases k with
  | zero => exact Nat.zero_le _
  | succ k =>
    rw [List.range_succ, List.foldlM_append] at h
    obtain ⟨before, -, hlast⟩ := Option.bind_eq_some_iff.mp h
    obtain ⟨after, hset, -⟩ := Option.bind_eq_some_iff.mp hlast
    rw [setSlot] at hset
    split at hset
    · next hk => exact lt_maxCapacity.mpr hk.1
    · cases hset

namespace JclLines

variable {t t' : JclLines}

theorem Consistent.freedOnce (h : t.Consistent) :
    Storage.FreedOnce t.live t.lines.id t.linesBuf.id :=
  Storage.freedOnce_of_mem h.lines_live h.buf_live h.apart

theorem Consistent.line_eq (h : t.Consistent) {i : Nat} (hi : i < t.capacity) :
    t.line i = some (slice t.linesBuf.cells (i * LINE_STRIDE) LINE_STRIDE) := by
  rw [line, h.slots i hi]
  exact if_pos rfl

/-- The slot of a line below the capacity lies in the buffer. -/
theorem Consistent.slot_le (h : t.Consistent) {i : Nat} (hi : i < t.capacity) :
    i * LINE_STRIDE + LINE_STRIDE ≤ t.linesBuf.cells.length := by
  have hslot : (i + 1) * LINE_STRIDE ≤ t.capacity * LINE_STRIDE := Nat.mul_le_mul_right _ hi
  rw [Nat.add_mul, Nat.one_mul] at hslot
  exact Nat.le_trans hslot h.room

/-- A call that leaves the table as it is. -/
theorem Consistent.unchanged (h : t.Consistent) {required rc : Int}
    (hrc : rc = 0 ∧ required ≤ t.capacity ∨ rc = -1) : LinesGrown t t required rc where
  consistent := h
  larger := Nat.le_refl _
  earlier _ _ := rfl
  empty i hle hlt := absurd hle (Nat.not_le_of_lt hlt)
  answer := hrc.imp_left And.left
  success hzero := by
    rcases hrc with ⟨-, hrequired⟩ | rfl
    · exact hrequired
    · cases hzero
  failure _ := rfl
  freed := h.freedOnce
  others := rfl

/-- A line of a table whose buffer has the same bytes in its slot. -/
theorem Consistent.line_congr (h : t.Consistent) (h' : t'.Consistent) {i : Nat} (hi : i < t.capacity)
    (hi' : i < t'.capacity)
    (hslice : slice t'.linesBuf.cells (i * LINE_STRIDE) LINE_STRIDE =
      slice t.linesBuf.cells (i * LINE_STRIDE) LINE_STRIDE) : t'.line i = t.line i := by
  rw [h.line_eq hi, h'.line_eq hi', hslice]

theorem Consistent.lt_length (h : t.Consistent) {i : Nat} (hi : i < t.capacity) :
    i < t.lines.cells.length := (List.getElem?_eq_some_iff.mp (h.slots i hi)).1

/-- The array has another place and size, the buffer stays where it was. -/
def linesMoved (t : JclLines) (id n : Nat) (fill : Nat → LinePtr) : JclLines :=
  { t with live := insert id (t.live.erase t.lines.id), lines := t.lines.resize id n fill }

theorem Consistent.linesMoved (h : t.Consistent) {id n : Nat} (fill : Nat → LinePtr)
    (hid : id = t.lines.id ∨ id ∉ t.live) (hn : t.capacity ≤ n) : (t.linesMoved id n fill).Consistent where
  positive := h.positive
  int := h.int
  slots i hi := by
    have hget := Storage.getElem?_resize t.lines id fill (Nat.lt_of_lt_of_le hi hn) (h.lt_length hi)
    exact hget.trans (h.slots i hi)
  room := h.room
  lines_live := Finset.mem_insert_self id _
  buf_live := Finset.mem_insert_of_mem (Finset.mem_erase.mpr ⟨h.apart.symm, h.buf_live⟩)
  apart := by
    rcases hid with rfl | hid
    · exact h.apart
    · intro heq
      have hbuf : id = t.linesBuf.id := heq
      exact hid (hbuf ▸ h.buf_live)

theorem others_linesMoved {id n : Nat} {fill : Nat → LinePtr} (hid : id = t.lines.id ∨ id ∉ t.live) :
    (t.linesMoved id n fill).others = t.others :=
  congrArg (fun live : Finset Nat => live.erase t.linesBuf.id) (Storage.erase_moved hid)

/-- A call whose second request is refused. -/
theorem Consistent.grown_linesMoved (h : t.Consistent) {id n : Nat} {fill : Nat → LinePtr}
    (hid : id = t.lines.id ∨ id ∉ t.live) (hn : t.capacity ≤ n) (required : Int) :
    LinesGrown t (t.linesMoved id n fill) required (-1) :=
  have hmoved := h.linesMoved fill hid hn
  { consistent := hmoved
    larger := Nat.le_refl _
    earlier := fun _ hi => h.line_congr hmoved hi hi rfl
    empty := fun _ hle hlt => absurd hle (Nat.not_le_of_lt hlt)
    answer := .inr rfl
    success := nofun
    failure := fun _ => rfl
    freed := hmoved.freedOnce
    others := others_linesMoved hid }

/-- The buffer has another place and size too, its new slots are cleared and all pointers are set. -/
theorem Consistent.grown_both (h : t.Consistent) {id newCap : Nat} {fill : Nat → UInt8}
    {newBuf : Storage.Block UInt8} {slots : List LinePtr}
    (hid : id = t.linesBuf.id ∨ id ∉ t.live) (hle : t.capacity ≤ newCap) (hint : newCap ≤ INT_MAX)
    (hwrite : (t.linesBuf.resize id (newCap * LINE_STRIDE) fill).write (t.capacity * LINE_STRIDE)
      (List.replicate ((newCap - t.capacity) * LINE_STRIDE) 0) = some newBuf)
    (hslots : ∀ i < newCap, slots[i]? = some ⟨newBuf.id, i * LINE_STRIDE⟩) {required : Int}
    (hrequired : required ≤ newCap) :
    LinesGrown t ⟨insert id (t.live.erase t.linesBuf.id), ⟨t.lines.id, slots⟩, newBuf, newCap⟩
      required 0 := by
  obtain ⟨hbuf, hlen, hcells⟩ := Storage.Block.write_eq_some hwrite
  rw [Storage.length_resize] at hlen
  rw [List.length_replicate] at hcells
  have hbufid : newBuf.id = id := hbuf
  have hspan : t.capacity * LINE_STRIDE + (newCap - t.capacity) * LINE_STRIDE = newCap * LINE_STRIDE := by
    rw [← Nat.add_mul, Nat.add_sub_cancel' hle]
  have happart : t.lines.id ≠ id := by
    rcases hid with rfl | hid
    · exact h.apart
    · exact fun heq => hid (heq ▸ h.lines_live)
  have hgrown : JclLines.Consistent
      ⟨insert id (t.live.erase t.linesBuf.id), ⟨t.lines.id, slots⟩, newBuf, newCap⟩ :=
    { positive := Nat.lt_of_lt_of_le h.positive hle
      int := hint
      slots := hslots
      room := Nat.le_of_eq hlen.symm
      lines_live := Finset.mem_insert_of_mem (Finset.mem_erase.mpr ⟨h.apart, h.lines_live⟩)
      buf_live := by
        rw [hbufid]
        exact Finset.mem_insert_self id _
      apart := by
        rw [hbufid]
        exact happart }
  refine
    { consistent := hgrown
      larger := hle
      earlier := fun i hi => h.line_congr hgrown hi (Nat.lt_of_lt_of_le hi hle) ?_
      empty := fun i hge hlt => ?_
      answer := .inl rfl
      success := fun _ => hrequired
      failure := nofun
      freed := hgrown.freedOnce
      others := ?_ }
  · have hslot : i * LINE_STRIDE + LINE_STRIDE ≤ t.capacity * LINE_STRIDE := by
      have := Nat.mul_le_mul_right LINE_STRIDE hi
      rwa [Nat.succ_mul] at this
    rw [Storage.slice_write_other hwrite (.inl hslot)]
    exact Storage.slice_resize _ _ _ (by omega) (h.slot_le hi)
  · have hslot : i * LINE_STRIDE + LINE_STRIDE ≤ newCap * LINE_STRIDE := by
      have := Nat.mul_le_mul_right LINE_STRIDE hlt
      rwa [Nat.succ_mul] at this
    have hstart : t.capacity * LINE_STRIDE ≤ i * LINE_STRIDE := Nat.mul_le_mul_right _ hge
    rw [hgrown.line_eq hlt]
    refine congrArg some (Storage.slice_eq_replicate fun k hk => ?_)
    rw [hcells, if_pos (by omega), List.getElem?_replicate, if_pos (by omega)]
  · have hmoved : (insert id (t.live.erase t.linesBuf.id)).erase id = t.live.erase t.linesBuf.id :=
      Storage.erase_moved hid
    rw [others, others, hbufid, Finset.erase_right_comm, hmoved, Finset.erase_right_comm]

/-- A call that asks for more. -/
theorem grow_eq {g : Growth} {newCap : Nat} (hrequired : ¬g.required ≤ t.capacity)
    (hcap : doubledCapacity g.required.toNat g.required.toNat t.capacity = some newCap) :
    t.grow g =
      match realloc t.live t.lines (newCap * PTR_SIZE % SIZE_T / PTR_SIZE) g.linesAnswer with
      | .undetermined => none
      | .refused => some (-1, t)
      | .granted live newLines =>
        match realloc live t.linesBuf (newCap * LINE_STRIDE % SIZE_T) g.bufAnswer with
        | .undetermined => none
        | .refused => some (-1, { t with live := live, lines := newLines })
        | .granted live newBuf =>
          match newBuf.write (t.capacity * LINE_STRIDE % SIZE_T)
              (List.replicate ((newCap - t.capacity) * LINE_STRIDE % SIZE_T) 0) with
          | none => none
          | some newBuf =>
            match (List.range newCap).foldlM (setSlot newBuf.id) newLines.cells with
            | none => none
            | some slots => some (0, ⟨live, ⟨newLines.id, slots⟩, newBuf, newCap⟩) := by
  rw [grow, if_neg hrequired, hcap]

end JclLines

/-- A call behind one that only moved the array. -/
theorem LinesGrown.trans {t t₁ t₂ : JclLines} {required rc : Int} (h₁ : LinesGrown t t₁ required (-1))
    (h₂ : LinesGrown t₁ t₂ required rc) : LinesGrown t t₂ required rc := by
  have hcap : t₁.capacity = t.capacity := h₁.failure rfl
  exact
    { consistent := h₂.consistent
      larger := Nat.le_trans h₁.larger h₂.larger
      earlier := fun i hi => (h₂.earlier i (hcap ▸ hi)).trans (h₁.earlier i hi)
      empty := fun i hge hlt => h₂.empty i (hcap ▸ hge) hlt
      answer := h₂.answer
      success := h₂.success
      failure := fun hrc => (h₂.failure hrc).trans hcap
      freed := h₂.freed
      others := h₂.others.trans h₁.others }

/-- Both requests are granted, and no offset overflows. -/
theorem JclLines.Consistent.grown_granted {t : JclLines} (h : t.Consistent) {id id' newCap : Nat}
    (fill : Nat → LinePtr) (fill' : Nat → UInt8) (hid : id = t.lines.id ∨ id ∉ t.live)
    (hid' : id' = t.linesBuf.id ∨ id' ∉ insert id (t.live.erase t.lines.id)) (hle : t.capacity ≤ newCap)
    (hint : newCap ≤ INT_MAX) (hmax : newCap ≤ MAX_CAPACITY) {required : Int}
    (hrequired : required ≤ newCap) :
    ∃ newBuf slots,
      (t.linesBuf.resize id' (newCap * LINE_STRIDE) fill').write (t.capacity * LINE_STRIDE)
        (List.replicate ((newCap - t.capacity) * LINE_STRIDE) 0) = some newBuf ∧
      (List.range newCap).foldlM (setSlot newBuf.id) (t.lines.resize id newCap fill).cells =
        some slots ∧
      LinesGrown t ⟨insert id' ((insert id (t.live.erase t.lines.id)).erase t.linesBuf.id), ⟨id, slots⟩,
        newBuf, newCap⟩ required 0 := by
  have hspan : t.capacity * LINE_STRIDE + (newCap - t.capacity) * LINE_STRIDE = newCap * LINE_STRIDE := by
    rw [← Nat.add_mul, Nat.add_sub_cancel' hle]
  obtain ⟨newBuf, hwrite⟩ : ∃ newBuf,
      (t.linesBuf.resize id' (newCap * LINE_STRIDE) fill').write (t.capacity * LINE_STRIDE)
        (List.replicate ((newCap - t.capacity) * LINE_STRIDE) 0) = some newBuf := by
    refine Storage.Block.write_of_le ?_
    rw [List.length_replicate, Storage.length_resize, hspan]
  have hcells : newCap ≤ (t.lines.resize id newCap fill).cells.length := by
    rw [Storage.length_resize]
  have hmoved := h.linesMoved fill hid hle
  refine ⟨newBuf, _, hwrite, foldlM_setSlot newBuf.id _ hcells hmax,
    (h.grown_linesMoved hid hle required).trans
      (hmoved.grown_both hid' hle hint hwrite (fun i hi => ?_) hrequired)⟩
  rw [List.getElem?_append_left (by rwa [List.length_map, List.length_range]), List.getElem?_map,
    List.getElem?_range hi, Option.map_some]

/-- Where the call asks for more and the guard does not stop it. -/
theorem Growth.fits_iff {g : Growth} {t : JclLines} {newCap : Nat} (hrequired : t.capacity < g.required)
    (hcap : doubledCapacity g.required.toNat g.required.toNat t.capacity = some newCap) :
    g.Fits t ↔
      match g.linesAnswer, g.bufAnswer with
      | none, _ => newCap * PTR_SIZE % SIZE_T / PTR_SIZE ≠ 0
      | some _, none => t.capacity ≤ newCap * PTR_SIZE % SIZE_T / PTR_SIZE
      | some _, some _ => newCap ≤ MAX_CAPACITY := by
  refine ⟨fun h => h hrequired newCap hcap, fun h _ n hn => ?_⟩
  cases hcap.symm.trans hn
  exact h

/-- Below the largest capacity no size wraps. -/
theorem sizes_of_le_max {newCap : Nat} (h : newCap ≤ MAX_CAPACITY) :
    newCap * PTR_SIZE % SIZE_T / PTR_SIZE = newCap ∧
      ∀ k ≤ newCap, k * LINE_STRIDE % SIZE_T = k * LINE_STRIDE := by
  unfold MAX_CAPACITY INT_MAX LINE_STRIDE at h
  unfold PTR_SIZE SIZE_T LINE_STRIDE
  exact ⟨by omega, fun k hk => by omega⟩

/-- A call leaves the table as it is meant to exactly where its sizes do not overflow. -/
theorem grow_iff {t : JclLines} (h : t.Consistent) {g : Growth} (hg : g.Admissible t) :
    (∃ rc t', t.grow g = some (rc, t') ∧ LinesGrown t t' g.required rc) ↔ g.Fits t := by
  by_cases hrequired : g.required ≤ t.capacity
  · refine iff_of_true ⟨0, t, if_pos hrequired, h.unchanged (.inl ⟨rfl, hrequired⟩)⟩ fun hlt => ?_
    exact absurd hrequired (not_le_of_gt hlt)
  have hlt : (t.capacity : Int) < g.required := not_le.mp hrequired
  cases hcap : doubledCapacity g.required.toNat g.required.toNat t.capacity with
  | none =>
    refine iff_of_true ⟨-1, t, ?_, h.unchanged (.inr rfl)⟩ fun _ newCap hnew => ?_
    · rw [JclLines.grow, if_neg hrequired, hcap]
    · cases hcap.symm.trans hnew
  | some newCap =>
    obtain ⟨hle, hint, hreach⟩ := doubledCapacity_spec hcap h.int h.positive (Nat.le_add_left _ _)
    rw [Growth.fits_iff hlt hcap, JclLines.grow_eq hrequired hcap]
    generalize hn : newCap * PTR_SIZE % SIZE_T / PTR_SIZE = n
    have hbuf : newCap * LINE_STRIDE % SIZE_T ≠ 0 := by
      have := h.positive
      unfold LINE_STRIDE SIZE_T
      unfold INT_MAX at hint
      omega
    obtain ⟨hlinesTo, hbufTo⟩ := hg
    cases hlines : g.linesAnswer with
    | none =>
      by_cases hzero : n = 0
      · rw [realloc, if_pos (.inr hzero)]
        exact iff_of_false (fun ⟨_, _, hnone, _⟩ => nomatch hnone) fun hne => hne hzero
      · rw [Storage.realloc_eq h.lines_live hzero]
        exact iff_of_true ⟨-1, t, rfl, h.unchanged (.inr rfl)⟩ hzero
    | some answer =>
      obtain ⟨id, fill⟩ := answer
      have hid := hlinesTo id fill hlines
      by_cases hzero : n = 0
      · rw [realloc, if_pos (.inr hzero)]
        refine iff_of_false (fun ⟨_, _, hnone, _⟩ => nomatch hnone) ?_
        have hpos := h.positive
        cases g.bufAnswer with
        | none => exact fun hfits : t.capacity ≤ n => by omega
        | some _ =>
          intro hfits
          have hwhole := sizes_of_le_max hfits
          omega
      · rw [Storage.realloc_eq h.lines_live hzero]
        have hbufLive : t.linesBuf.id ∈ insert id (t.live.erase t.lines.id) :=
          Finset.mem_insert_of_mem (Finset.mem_erase.mpr ⟨h.apart.symm, h.buf_live⟩)
        dsimp only
        rw [Storage.realloc_eq hbufLive hbuf]
        cases hanswer : g.bufAnswer with
        | none =>
          refine ⟨fun ⟨rc, t', heq, hgrown⟩ => ?_, fun hfits =>
            ⟨-1, _, rfl, h.grown_linesMoved hid hfits _⟩⟩
          cases heq
          have hlast : t.capacity - 1 < (t.lines.resize id n fill).cells.length :=
            hgrown.consistent.lt_length (Nat.sub_lt h.positive Nat.one_pos)
          rw [Storage.length_resize] at hlast
          exact Nat.le_of_pred_lt hlast
        | some answer =>
          obtain ⟨id', fill'⟩ := answer
          have hid' := hbufTo id fill hlines id' fill' hanswer
          constructor
          · rintro ⟨rc, t', heq, -⟩
            dsimp only at heq
            split at heq
            · cases heq
            · split at heq
              · cases heq
              · next hslots => exact le_maxCapacity_of_foldlM hslots
          · intro hfits
            obtain ⟨hptrs, hbytes⟩ := sizes_of_le_max hfits
            have hwhole : n = newCap := hn.symm.trans hptrs
            obtain ⟨newBuf, slots, hwrite, hset, hgrown⟩ :=
              h.grown_granted fill fill' hid hid' hle hint hfits (by omega : g.required ≤ newCap)
            rw [hwhole, hbytes newCap (Nat.le_refl _), hbytes _ hle, hbytes _ (Nat.sub_le _ _)]
            dsimp only
            rw [hwrite]
            dsimp only
            rw [hset]
            exact ⟨0, _, rfl, hgrown⟩

/-- A call that asks for more gets it where both requests are granted. -/
theorem grow_result {t t' : JclLines} {g : Growth} {rc : Int} {newCap : Nat}
    (hrequired : ¬g.required ≤ t.capacity)
    (hcap : doubledCapacity g.required.toNat g.required.toNat t.capacity = some newCap)
    (h : t.grow g = some (rc, t')) :
    (g.linesAnswer.isSome && g.bufAnswer.isSome) = true ∧ rc = 0 ∧ t'.capacity = newCap ∨
      (g.linesAnswer.isSome && g.bufAnswer.isSome) = false ∧ rc = -1 := by
  rw [JclLines.grow_eq hrequired hcap] at h
  split at h
  · cases h
  · next hlines =>
    cases h
    rw [Storage.isSome_of_refused hlines]
    exact .inr ⟨rfl, rfl⟩
  · next hlines =>
    rw [Storage.isSome_of_granted hlines]
    split at h
    · cases h
    · next hbuf =>
      cases h
      rw [Storage.isSome_of_refused hbuf]
      exact .inr ⟨rfl, rfl⟩
    · next hbuf =>
      rw [Storage.isSome_of_granted hbuf]
      split at h
      · cases h
      · split at h <;> cases h
        exact .inl ⟨rfl, rfl, rfl⟩

/-- A submission counts with the capacity that a call leaves. -/
theorem grow_capacity {t : JclLines} (h : t.Consistent) {required : Nat} {g : Growth}
    (hrequired : g.required = required) (hg : g.Admissible t) (hfits : g.Fits t) {env : SubmitEnv}
    (henv : ∀ n, env.realloc n = (g.linesAnswer.isSome && g.bufAnswer.isSome)) :
    ∃ rc t', t.grow g = some (rc, t') ∧
      growLinesArrays env t.capacity required = if rc = 0 then some t'.capacity else none := by
  obtain ⟨rc, t', heq, -⟩ := (grow_iff h hg).mpr hfits
  refine ⟨rc, t', heq, ?_⟩
  have hnat : g.required ≤ t.capacity ↔ required ≤ t.capacity := by rw [hrequired, Int.ofNat_le]
  have htoNat : g.required.toNat = required := by rw [hrequired, Int.toNat_natCast]
  rw [growLinesArrays]
  by_cases hle : g.required ≤ t.capacity
  · rw [JclLines.grow, if_pos hle] at heq
    cases heq
    rw [if_pos (hnat.mp hle)]
    rfl
  rw [if_neg (mt hnat.mpr hle), ← htoNat]
  cases hcap : doubledCapacity g.required.toNat g.required.toNat t.capacity with
  | none =>
    rw [JclLines.grow, if_neg hle, hcap] at heq
    cases heq
    rfl
  | some newCap =>
    dsimp only
    rw [henv]
    rcases grow_result hle hcap heq with ⟨hgranted, rfl, rfl⟩ | ⟨hgranted, rfl⟩
    · rw [hgranted]
      rfl
    · rw [hgranted]
      rfl

/-! ## Runs -/

/-- What a store leaves of a table. -/
structure LineStored (t t' : JclLines) (i : Nat) (data : List UInt8) : Prop where
  consistent : t'.Consistent
  capacity : t'.capacity = t.capacity
  changed : t'.line i = (t.line i).map fun old => data ++ old.drop data.length
  others_kept : ∀ j < t.capacity, j ≠ i → t'.line j = t.line j
  others : t'.others = t.others

/-- A store to a slot changes that slot. -/
theorem JclLines.Consistent.store {t : JclLines} (h : t.Consistent) {i : Nat} {data : List UInt8}
    (hi : i < t.capacity) (hdata : data.length ≤ LINE_STRIDE) :
    ∃ t', t.store i data = some t' ∧ LineStored t t' i data := by
  have hslot := h.slot_le hi
  obtain ⟨linesBuf, hwrite⟩ : ∃ linesBuf, t.linesBuf.write (i * LINE_STRIDE) data = some linesBuf :=
    Storage.Block.write_of_le (by omega)
  obtain ⟨hid, hlen, -⟩ := Storage.Block.write_eq_some hwrite
  have hstored : JclLines.Consistent { t with linesBuf := linesBuf } :=
    { positive := h.positive
      int := h.int
      slots := fun j hj => (h.slots j hj).trans (by rw [hid])
      room := Nat.le_trans h.room (Nat.le_of_eq hlen.symm)
      lines_live := h.lines_live
      buf_live := hid.symm ▸ h.buf_live
      apart := hid.symm ▸ h.apart }
  refine ⟨{ t with linesBuf := linesBuf }, ?_, hstored, rfl, ?_, fun j hj hne => ?_, ?_⟩
  · rw [JclLines.store, h.slots i hi]
    dsimp only
    rw [if_pos rfl, hwrite]
    rfl
  · rw [hstored.line_eq hi, h.line_eq hi, Option.map_some]
    exact congrArg some (Storage.slice_write_same hwrite hdata)
  · refine h.line_congr hstored hj hj (Storage.slice_write_other hwrite ?_)
    rcases Nat.lt_or_gt_of_ne hne with hlt | hgt
    · have := Nat.mul_le_mul_right LINE_STRIDE hlt
      rw [Nat.succ_mul] at this
      exact .inl this
    · have := Nat.mul_le_mul_right LINE_STRIDE hgt
      rw [Nat.succ_mul] at this
      exact .inr (by omega)
  · rw [JclLines.others, JclLines.others, hid]

inductive LineOp
  | grow (g : Growth)
  | store (i : Nat) (data : List UInt8)

def LineOp.exec (t : JclLines) : LineOp → Option JclLines
  | .grow g => (t.grow g).map Prod.snd
  | .store i data => t.store i data

def runLines (t : JclLines) (ops : List LineOp) : Option JclLines := ops.foldlM LineOp.exec t

/-- A call whose sizes do not overflow, or a store to a slot. -/
def LineOp.Within (t : JclLines) : LineOp → Prop
  | .grow g => g.Admissible t ∧ g.Fits t
  | .store i data => i < t.capacity ∧ data.length ≤ LINE_STRIDE

def RunWithin : JclLines → List LineOp → Prop
  | _, [] => True
  | t, op :: ops => op.Within t ∧ ∀ t', op.exec t = some t' → RunWithin t' ops

theorem LineOp.Within.exec {t : JclLines} (h : t.Consistent) {op : LineOp} (hop : op.Within t) :
    ∃ t', op.exec t = some t' ∧ t'.Consistent ∧ t'.others = t.others := by
  cases op with
  | grow g =>
    obtain ⟨rc, t', heq, hgrown⟩ := (grow_iff h hop.1).mpr hop.2
    exact ⟨t', congrArg (Option.map Prod.snd) heq, hgrown.consistent, hgrown.others⟩
  | store i data =>
    obtain ⟨t', heq, hstored⟩ := h.store hop.1 hop.2
    exact ⟨t', heq, hstored.consistent, hstored.others⟩

theorem RunWithin.consistent {t : JclLines} (h : t.Consistent) {ops : List LineOp}
    (hops : RunWithin t ops) :
    ∃ t', runLines t ops = some t' ∧ t'.Consistent ∧ t'.others = t.others := by
  induction ops generalizing t with
  | nil => exact ⟨t, rfl, h, rfl⟩
  | cons op ops ih =>
    obtain ⟨t₁, hexec, hconsistent, hothers⟩ := hops.1.exec h
    obtain ⟨t', hrun, hconsistent', hothers'⟩ := ih hconsistent (hops.2 t₁ hexec)
    refine ⟨t', ?_, hconsistent', hothers'.trans hothers⟩
    rw [runLines, List.foldlM_cons, hexec]
    exact hrun

/-- **The line table.** Behind a run of calls and stores the table is consistent and its two blocks can
each be given back once, and the next call leaves it as it is meant to exactly if the sizes of the new
capacity do not overflow. -/
theorem jclLines_run {t₀ : JclLines} (h : t₀.Consistent) {ops : List LineOp} (hops : RunWithin t₀ ops) :
    ∃ t, runLines t₀ ops = some t ∧ t.Consistent ∧
      Storage.FreedOnce t.live t.lines.id t.linesBuf.id ∧ t.others = t₀.others ∧
      ∀ g : Growth, g.Admissible t →
        ((∃ rc t', t.grow g = some (rc, t') ∧ LinesGrown t t' g.required rc) ↔ g.Fits t) := by
  obtain ⟨t, hrun, hconsistent, hothers⟩ := hops.consistent h
  exact ⟨t, hrun, hconsistent, hconsistent.freedOnce, hothers, fun g hg => grow_iff hconsistent hg⟩

/-- A table of one line. -/
def oneLine : JclLines := ⟨{0, 1}, ⟨0, [⟨1, 0⟩]⟩, ⟨1, List.replicate LINE_STRIDE 0⟩, 1⟩

theorem oneLine_consistent : oneLine.Consistent where
  positive := Nat.one_pos
  int := by decide
  slots i hi := by
    obtain rfl : i = 0 := Nat.lt_one_iff.mp hi
    rfl
  room := by
    rw [oneLine, List.length_replicate]
    decide
  lines_live := by decide
  buf_live := by decide
  apart := Nat.zero_ne_one

/-- Both requests are granted where the blocks stand. -/
def grownTo (required : Int) : Growth := ⟨required, some (0, fun _ => ⟨0, 0⟩), some (1, fun _ => 0)⟩

theorem grownTo_admissible (required : Int) : (grownTo required).Admissible oneLine :=
  ⟨fun _ _ h => .inl (congrArg Prod.fst (Option.some.inj h)).symm,
    fun _ _ _ _ _ h => .inl (congrArg Prod.fst (Option.some.inj h)).symm⟩

theorem jclLines_run_two :
    oneLine.Consistent ∧ RunWithin oneLine [.grow (grownTo 2)] ∧
      ∃ t, runLines oneLine [.grow (grownTo 2)] = some t ∧ t.Consistent := by
  have hops : RunWithin oneLine [.grow (grownTo 2)] := by
    refine ⟨⟨grownTo_admissible 2, fun _ newCap hcap => ?_⟩, fun _ _ => trivial⟩
    cases hcap
    show 2 ≤ MAX_CAPACITY
    decide
  obtain ⟨t, hrun, hconsistent, -⟩ := jclLines_run oneLine_consistent hops
  exact ⟨oneLine_consistent, hops, t, hrun, hconsistent⟩

/-- 2 ^ 26 lines: their bytes are more than a `size_t` counts, and the offsets more than an `int`. -/
theorem grow_overflows :
    oneLine.Consistent ∧ (grownTo 67108864).Admissible oneLine ∧
      ¬∃ rc t', oneLine.grow (grownTo 67108864) = some (rc, t') ∧ LinesGrown oneLine t' 67108864 rc := by
  refine ⟨oneLine_consistent, grownTo_admissible _, fun hgrown => ?_⟩
  have hfits := (grow_iff oneLine_consistent (grownTo_admissible 67108864)).mp hgrown
  have hcap : doubledCapacity 67108864 67108864 1 = some 67108864 := by rfl
  have hmax : 67108864 ≤ MAX_CAPACITY := hfits (by decide) 67108864 hcap
  exact absurd hmax (by decide)

end Mvsmf
