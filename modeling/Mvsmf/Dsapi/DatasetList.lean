import Mvsmf.Dsapi.Names
import Mvsmf.Lib.Paging
import Mathlib

/-!
# The data set list by pages

The catalog search and the exact-name lookup bring an array of names with holes. The handler sorts it,
counts the entries a start value leaves and writes as many as the client asked for. A start value
that is longer than a name is cut to a key, and a name equal to that key is then left out.
-/

namespace Mvsmf

/-- `dsn` of a catalog entry, in EBCDIC. -/
structure DsName where
  dsn : List UInt8
  length_le : dsn.length ≤ MAX_DATASET_NAME
  noNul : 0 ∉ dsn

/-- The order of two entries, holes last. -/
def dslistCmp : Option DsName → Option DsName → Ordering
  | none, none => .eq
  | none, some _ => .gt
  | some _, none => .lt
  | some a, some b => CLib.strcmp a.dsn b.dsn

/-- Does the entry belong to the page? `start` is the key and whether the value was cut. -/
def dslistInPage (start : Option (List UInt8 × Bool)) : Option DsName → Bool
  | none => false
  | some ds =>
    match start with
    | none => true
    | some (startKey, startAfter) =>
      let cmp := CLib.strcmp ds.dsn startKey
      !(cmp == .lt || (startAfter && cmp == .eq))

/-- The emit loop: the names written from here on, with `emitted` written before. -/
def emitPage (start : Option (List UInt8 × Bool)) (maxitems : Nat) :
    Nat → List (Option DsName) → List DsName
  | _, [] => []
  | emitted, ds :: rest =>
    if dslistInPage start ds = false then emitPage start maxitems emitted rest
    else if 0 < maxitems ∧ maxitems ≤ emitted then []
    else ds.toList ++ emitPage start maxitems (emitted + 1) rest

structure DatasetPage where
  items : List DsName
  moreRows : Bool

/-- The listing behind the catalog search. -/
def datasetPage (dslist : List (Option DsName)) (start : Option (List UInt8)) (maxitems : Nat) :
    DatasetPage :=
  let key := makeQueryKey start (MAX_DATASET_NAME + 1)
  let sorted := dslist.mergeSort fun a b => (dslistCmp a b).isLE
  let eligible := sorted.countP (dslistInPage key)
  let items := emitPage key maxitems 0 sorted
  ⟨items, decide (items.length < eligible)⟩

/-! ## The two passes -/

/-- The names a start value leaves. -/
def inPage (start : Option (List UInt8 × Bool)) (sorted : List (Option DsName)) : List DsName :=
  sorted.reduceOption.filter fun ds => dslistInPage start (some ds)

theorem inPage_cons (start : Option (List UInt8 × Bool)) (ds : Option DsName)
    (sorted : List (Option DsName)) :
    inPage start (ds :: sorted) =
      (if dslistInPage start ds = true then ds.toList else []) ++ inPage start sorted := by
  cases ds with
  | none => rfl
  | some ds =>
    rw [inPage, List.reduceOption_cons_of_some, List.filter_cons]
    split <;> rfl

/-- Only a name is in a page. -/
theorem length_toList_of_inPage {start : Option (List UInt8 × Bool)} {ds : Option DsName}
    (h : dslistInPage start ds = true) : ds.toList.length = 1 := by
  cases ds with
  | none => cases h
  | some ds => rfl

/-- The counting pass. -/
theorem countP_inPage (start : Option (List UInt8 × Bool)) (sorted : List (Option DsName)) :
    sorted.countP (dslistInPage start) = (inPage start sorted).length := by
  induction sorted with
  | nil => rfl
  | cons ds sorted ih =>
    rw [List.countP_cons, inPage_cons, List.length_append, ih]
    split
    · next h => rw [length_toList_of_inPage h, Nat.add_comm]
    · rw [List.length_nil, Nat.add_comm]

/-- The emit pass. -/
theorem emitPage_eq (start : Option (List UInt8 × Bool)) (maxitems emitted : Nat)
    (sorted : List (Option DsName)) :
    emitPage start maxitems emitted sorted =
      if maxitems = 0 then inPage start sorted
      else (inPage start sorted).take (maxitems - emitted) := by
  induction sorted generalizing emitted with
  | nil => simp [emitPage, inPage, List.reduceOption]
  | cons ds sorted ih =>
    rw [emitPage, inPage_cons]
    cases hds : dslistInPage start ds with
    | false =>
      rw [if_pos rfl, ih]
      rfl
    | true =>
      rw [if_neg nofun, if_pos rfl]
      split
      · next hfull => rw [if_neg (by omega), Nat.sub_eq_zero_of_le hfull.2, List.take_zero]
      · next hroom =>
        rw [ih]
        split
        · rfl
        · have hlen := length_toList_of_inPage hds
          rw [List.take_append, hlen, Nat.sub_sub,
            List.take_of_length_le (hlen.le.trans (by omega))]

/-! ## The order -/

theorem dslistCmp_trans {a b c : Option DsName} (hab : (dslistCmp a b).isLE = true)
    (hbc : (dslistCmp b c).isLE = true) : (dslistCmp a c).isLE = true := by
  cases a with
  | none =>
    cases b with
    | none => exact hbc
    | some b => cases hab
  | some a =>
    cases c with
    | none => rfl
    | some c =>
      cases b with
      | none => cases hbc
      | some b =>
        simp only [dslistCmp, CLib.strcmp_isLE_iff] at hab hbc ⊢
        exact hab.trans hbc

theorem dslistCmp_total (a b : Option DsName) :
    ((dslistCmp a b).isLE || (dslistCmp b a).isLE) = true := by
  cases a with
  | none => cases b <;> rfl
  | some a =>
    cases b with
    | none => rfl
    | some b =>
      rw [Bool.or_eq_true]
      simp only [dslistCmp, CLib.strcmp_isLE_iff]
      exact le_total _ _

/-- The sorted array, its holes left out, is the names in order. -/
theorem sorted_names {dslist : List (Option DsName)} {names : List (List UInt8)}
    (hperm : names.Perm (dslist.reduceOption.map (·.dsn))) (hs : names.Pairwise (· < ·)) :
    (dslist.mergeSort fun a b => (dslistCmp a b).isLE).reduceOption.map (·.dsn) = names := by
  set sorted := dslist.mergeSort fun a b => (dslistCmp a b).isLE with hsorted
  have hpair : sorted.Pairwise fun a b => (dslistCmp a b).isLE = true :=
    @List.pairwise_mergeSort _ (fun a b => (dslistCmp a b).isLE)
      (fun _ _ _ => dslistCmp_trans) dslistCmp_total dslist
  have hle : (sorted.reduceOption.map (·.dsn)).Pairwise (· ≤ ·) := by
    rw [List.pairwise_map, List.reduceOption, List.pairwise_filterMap]
    refine hpair.imp ?_
    rintro _ _ hab a rfl b rfl
    exact CLib.strcmp_isLE_iff.mp hab
  have hsame : (sorted.reduceOption.map (·.dsn)).Perm names :=
    (((List.mergeSort_perm dslist _).filterMap id).map _).trans hperm.symm
  exact hsame.eq_of_pairwise (fun a b _ _ => le_antisymm) hle (hs.imp le_of_lt)

/-! ## The page -/

/-- The key of a start value leaves the names not below the full value. -/
theorem dslistInPage_iff {start : Option (List UInt8)} (ds : DsName) :
    dslistInPage (makeQueryKey start (MAX_DATASET_NAME + 1)) (some ds) = true ↔
      folded (start.getD []) ≤ ds.dsn := by
  cases hkey : makeQueryKey start (MAX_DATASET_NAME + 1) with
  | none =>
    rw [makeQueryKey_eq_none_iff.mp hkey]
    exact iff_of_true rfl (not_lt.mp (List.not_lt_nil _))
  | some k =>
    obtain ⟨key, cut⟩ := k
    obtain ⟨rest, hvalue, hcut, hlen, -⟩ := makeQueryKey_eq_some hkey
    rw [hvalue, dslistInPage]
    cases cut with
    | true =>
      have hname : ds.dsn.length ≤ key.length := by
        rw [hlen rfl]
        exact ds.length_le
      rw [CLib.append_le_iff (hcut.mp rfl) hname, ← not_le, ← CLib.strcmp_isLE_iff]
      cases CLib.strcmp ds.dsn key <;> simp
    | false =>
      obtain rfl : rest = [] := by
        by_contra hne
        cases hcut.mpr hne
      rw [List.append_nil, ← not_lt, ← CLib.strcmp_lt_iff]
      cases CLib.strcmp ds.dsn key <;> simp

section

variable {dslist : List (Option DsName)} {names : List (List UInt8)}
  (hperm : names.Perm (dslist.reduceOption.map (·.dsn))) (hs : names.Pairwise (· < ·))
include hperm hs

theorem inPage_names (start : Option (List UInt8)) :
    (inPage (makeQueryKey start (MAX_DATASET_NAME + 1))
      (dslist.mergeSort fun a b => (dslistCmp a b).isLE)).map (·.dsn) =
      names.filter (folded (start.getD []) ≤ ·) := by
  rw [← sorted_names hperm hs, List.filter_map, inPage]
  congr 1
  refine List.filter_congr fun ds _ => ?_
  rw [Bool.eq_iff_iff, dslistInPage_iff]
  simp

/-- The page and the flag. -/
theorem datasetPage_eq (start : Option (List UInt8)) (maxitems : Nat) :
    ((datasetPage dslist start maxitems).items.map (·.dsn),
        (datasetPage dslist start maxitems).moreRows) =
      (Paging.limit maxitems (names.filter (folded (start.getD []) ≤ ·)),
        Paging.exceeds maxitems (names.filter (folded (start.getD []) ≤ ·))) := by
  have hnames := inPage_names hperm hs start
  rw [← hnames]
  simp only [datasetPage, countP_inPage, emitPage_eq, Nat.sub_zero, Paging.limit, Paging.exceeds,
    List.length_map, Prod.mk.injEq, decide_eq_decide]
  generalize inPage _ _ = found
  split
  · next h0 => exact ⟨rfl, by simp [h0]⟩
  · next h0 =>
    rw [List.map_take, List.length_take]
    exact ⟨rfl, by omega⟩

end

/-- The answers to a client of a listing. -/
def askDatasets (dslist : List (Option DsName)) (maxitems : Nat) (start : Option (List UInt8)) :
    List (List UInt8) × Bool :=
  let page := datasetPage dslist start maxitems
  (page.items.map (·.dsn), page.moreRows)

/-- A page is the first of the names not below the whole start value, with a flag for those behind it,
and a client that goes on from the last name received gets all of them. -/
theorem datasetList_paging {dslist : List (Option DsName)} {names : List (List UInt8)}
    (hperm : names.Perm (dslist.reduceOption.map (·.dsn))) (hs : names.Pairwise (· < ·)) :
    (∀ start maxitems,
      let found := names.filter (folded (start.getD []) ≤ ·)
      (datasetPage dslist start maxitems).items.map (·.dsn) =
          (if maxitems = 0 then found else found.take maxitems) ∧
        ((datasetPage dslist start maxitems).moreRows = true ↔
          maxitems ≠ 0 ∧ maxitems < found.length)) ∧
      ((∀ name ∈ names, folded name = name) → ∀ maxitems, 2 ≤ maxitems → ∀ start,
        ∃! pages, Paging.Walk (askDatasets dslist maxitems) some start pages ∧
          Paging.joined pages = names.filter (folded (start.getD []) ≤ ·) ∧
          Paging.Overlaps pages) := by
  constructor
  · intro start maxitems
    obtain ⟨hitems, hmore⟩ := Prod.mk.inj (datasetPage_eq hperm hs start maxitems)
    refine ⟨hitems, ?_⟩
    rw [hmore, Paging.exceeds, decide_eq_true_eq]
  · intro hfold maxitems hmax start
    obtain ⟨pages, hwalk, hjoined, hover⟩ : ∃ pages,
        Paging.Walk (askDatasets dslist maxitems) some start pages ∧
        Paging.joined pages = names.filter (folded (start.getD []) ≤ ·) ∧
        Paging.Overlaps pages :=
      Paging.exists_walk hs hmax (fun start => datasetPage_eq hperm hs start maxitems)
        (show ∀ name ∈ names, folded ((some name).getD []) = name from hfold) start
    exact ⟨pages, ⟨hwalk, hjoined, hover⟩, fun pages' h => h.1.functional hwalk⟩

/-- A hole, then `B` and `A`. -/
def smallDslist : List (Option DsName) :=
  [none, some ⟨[0xC2], by decide, by decide⟩, some ⟨[0xC1], by decide, by decide⟩]

def smallNames : List (List UInt8) := [[0xC1], [0xC2]]

theorem datasetList_paging_small :
    (datasetPage smallDslist (some [0x81]) 1).items.map (·.dsn) = [[0xC1]] ∧
      ∃! pages, Paging.Walk (askDatasets smallDslist 2) some none pages ∧
        Paging.joined pages = smallNames ∧ Paging.Overlaps pages := by
  have hperm : smallNames.Perm (smallDslist.reduceOption.map (·.dsn)) := List.Perm.swap _ _ _
  have h := datasetList_paging hperm (by decide)
  exact ⟨(h.1 (some [0x81]) 1).1, h.2 (by decide) 2 (Nat.le_refl 2) none⟩

end Mvsmf
