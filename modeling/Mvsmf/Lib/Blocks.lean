import Mathlib

/-!
# Allocated blocks

Blocks are known by what names them, and a set holds the names of those that are allocated. A block
may be given another size, by which it may move: the answer says where to, and what stands in it
behind what it had. A piece of a block is read and written by its offset.
-/

universe u

namespace Storage

variable {α : Type u}

structure Block (α : Type u) where
  id : Nat
  cells : List α

/-- A refused request, or where the block is, and what stands behind what it had. -/
abbrev ReallocAnswer (α : Type u) := Option (Nat × (Nat → α))

inductive Realloc (α : Type u)
  | undetermined
  | refused
  | granted (live : Finset Nat) (block : Block α)

def Block.resize (b : Block α) (id n : Nat) (fill : Nat → α) : Block α :=
  ⟨id, (List.range n).map fun i => b.cells.getD i (fill i)⟩

/-- A block of no cells may be given back or not. -/
def realloc (live : Finset Nat) (b : Block α) (n : Nat) (answer : ReallocAnswer α) : Realloc α :=
  if b.id ∉ live ∨ n = 0 then .undetermined
  else
    match answer with
    | none => .refused
    | some (id, fill) => .granted (insert id (live.erase b.id)) (b.resize id n fill)

/-- A block stays where it is or moves to where none is. -/
def ReallocAnswer.Admissible (answer : ReallocAnswer α) (live : Finset Nat) (b : Block α) : Prop :=
  ∀ id fill, answer = some (id, fill) → id = b.id ∨ id ∉ live

/-- `none` where there is no such block. -/
def free (live : Finset Nat) (id : Nat) : Option (Finset Nat) :=
  if id ∈ live then some (live.erase id) else none

/-- Two blocks can each be given back, and only once. -/
def FreedOnce (live : Finset Nat) (a b : Nat) : Prop :=
  ∃ left rest, free live a = some left ∧ free left b = some rest ∧ free rest a = none ∧
    free rest b = none

theorem freedOnce_of_mem {live : Finset Nat} {a b : Nat} (ha : a ∈ live) (hb : b ∈ live) (hne : a ≠ b) :
    FreedOnce live a b := by
  have hb' : b ∈ live.erase a := Finset.mem_erase.mpr ⟨hne.symm, hb⟩
  refine ⟨live.erase a, (live.erase a).erase b, if_pos ha, if_pos hb', if_neg fun h => ?_, if_neg ?_⟩
  · exact Finset.notMem_erase a live (Finset.mem_of_mem_erase h)
  · exact Finset.notMem_erase b (live.erase a)

theorem realloc_eq {live : Finset Nat} {b : Block α} {n : Nat} (hlive : b.id ∈ live) (hn : n ≠ 0)
    (answer : ReallocAnswer α) :
    realloc live b n answer =
      match answer with
      | none => .refused
      | some (id, fill) => .granted (insert id (live.erase b.id)) (b.resize id n fill) :=
  if_neg (not_or.mpr ⟨not_not_intro hlive, hn⟩)

theorem isSome_of_refused {live : Finset Nat} {b : Block α} {n : Nat} {answer : ReallocAnswer α}
    (h : realloc live b n answer = .refused) : answer.isSome = false := by
  unfold realloc at h
  split at h
  · cases h
  · cases answer with
    | none => rfl
    | some _ => cases h

theorem isSome_of_granted {live live' : Finset Nat} {b b' : Block α} {n : Nat}
    {answer : ReallocAnswer α} (h : realloc live b n answer = .granted live' b') :
    answer.isSome = true := by
  unfold realloc at h
  split at h
  · cases h
  · cases answer with
    | none => cases h
    | some _ => rfl

/-- The other blocks stay as they are. -/
theorem erase_moved {live : Finset Nat} {id id' : Nat} (h : id' = id ∨ id' ∉ live) :
    (insert id' (live.erase id)).erase id' = live.erase id := by
  refine Finset.erase_insert ?_
  rcases h with rfl | h
  · exact Finset.notMem_erase id' live
  · exact fun hmem => h (Finset.mem_of_mem_erase hmem)

/-! ## Pieces -/

def slice (l : List α) (off len : Nat) : List α := (l.drop off).take len

theorem slice_congr {l l' : List α} {off len : Nat} (h : ∀ i < len, l[off + i]? = l'[off + i]?) :
    slice l off len = slice l' off len := by
  refine List.ext_getElem? fun i => ?_
  rw [slice, slice, List.getElem?_take, List.getElem?_take, List.getElem?_drop, List.getElem?_drop]
  split
  · next hi => exact h i hi
  · rfl

theorem slice_eq_replicate {l : List α} {off len : Nat} {a : α} (h : ∀ i < len, l[off + i]? = some a) :
    slice l off len = List.replicate len a := by
  refine List.ext_getElem? fun i => ?_
  rw [slice, List.getElem?_take, List.getElem?_drop, List.getElem?_replicate]
  split
  · next hi => exact h i hi
  · rfl

/-- Cells written over those at an offset; `none` where the block has not got them. -/
def Block.write (b : Block α) (off : Nat) (data : List α) : Option (Block α) :=
  if off + data.length ≤ b.cells.length then
    some ⟨b.id, b.cells.take off ++ (data ++ b.cells.drop (off + data.length))⟩
  else none

theorem Block.write_eq_some {b b' : Block α} {off : Nat} {data : List α}
    (h : b.write off data = some b') :
    b'.id = b.id ∧ b'.cells.length = b.cells.length ∧
      ∀ i, b'.cells[i]? =
        if off ≤ i ∧ i < off + data.length then data[i - off]? else b.cells[i]? := by
  rw [Block.write] at h
  split at h
  · next hle =>
    cases h
    refine ⟨rfl, ?_, fun i => ?_⟩
    · simp only [List.length_append, List.length_take, List.length_drop]
      omega
    · have htake : (b.cells.take off).length = off := by
        rw [List.length_take]
        omega
      by_cases hi : i < off
      · rw [List.getElem?_append_left (by rwa [htake]), List.getElem?_take_of_lt hi,
          if_neg fun h => Nat.not_le_of_lt hi h.1]
      · have hoff : off ≤ i := Nat.not_lt.mp hi
        rw [List.getElem?_append_right (by rwa [htake]), htake]
        by_cases hdata : i < off + data.length
        · rw [List.getElem?_append_left (by omega), if_pos ⟨hoff, hdata⟩]
        · rw [List.getElem?_append_right (by omega), List.getElem?_drop, if_neg fun h => hdata h.2]
          congr 1
          omega
  · cases h

theorem Block.write_of_le {b : Block α} {off : Nat} {data : List α}
    (h : off + data.length ≤ b.cells.length) : ∃ b', b.write off data = some b' := ⟨_, if_pos h⟩

/-- A piece that nothing is written to. -/
theorem slice_write_other {b b' : Block α} {off : Nat} {data : List α}
    (h : b.write off data = some b') {off' len : Nat}
    (hout : off' + len ≤ off ∨ off + data.length ≤ off') :
    slice b'.cells off' len = slice b.cells off' len := by
  refine slice_congr fun i hi => ?_
  rw [(Block.write_eq_some h).2.2, if_neg]
  omega

/-- A piece that is written to from its start. -/
theorem slice_write_same {b b' : Block α} {off len : Nat} {data : List α}
    (h : b.write off data = some b') (hlen : data.length ≤ len) :
    slice b'.cells off len = data ++ (slice b.cells off len).drop data.length := by
  refine List.ext_getElem? fun i => ?_
  rw [slice, List.getElem?_take, List.getElem?_drop, (Block.write_eq_some h).2.2]
  by_cases hi : i < data.length
  · rw [List.getElem?_append_left hi, if_pos (by omega), if_pos (by omega), Nat.add_sub_cancel_left]
  · have hout : ¬(off ≤ off + i ∧ off + i < off + data.length) := by omega
    rw [List.getElem?_append_right (Nat.not_lt.mp hi), List.getElem?_drop, slice, List.getElem?_take,
      List.getElem?_drop, if_neg hout, Nat.add_sub_cancel' (Nat.not_lt.mp hi)]

theorem length_resize (b : Block α) (id n : Nat) (fill : Nat → α) :
    (b.resize id n fill).cells.length = n := by
  rw [Block.resize, List.length_map, List.length_range]

theorem getElem?_resize (b : Block α) (id : Nat) {n i : Nat} (fill : Nat → α) (hn : i < n)
    (hb : i < b.cells.length) : (b.resize id n fill).cells[i]? = b.cells[i]? := by
  rw [Block.resize, List.getElem?_map, List.getElem?_range hn, Option.map_some, List.getD_eq_getElem?_getD,
    List.getElem?_eq_getElem hb, Option.getD_some]

/-- What a block had it has in its new size. -/
theorem slice_resize (b : Block α) (id : Nat) {n off len : Nat} (fill : Nat → α) (hn : off + len ≤ n)
    (hb : off + len ≤ b.cells.length) :
    slice (b.resize id n fill).cells off len = slice b.cells off len :=
  slice_congr fun i hi => getElem?_resize b id fill (by omega) (by omega)

end Storage
