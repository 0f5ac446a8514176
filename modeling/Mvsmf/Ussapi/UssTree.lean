import Mvsmf.Ussapi.UssWrite
import Mathlib

/-!
# Deleting a tree

What the calls of a recursive delete do to a tree of files: UFS may refuse any of them, and what it
does not refuse it does, to the node that the path names. A directory is read in any order while its
entries go, some of them perhaps left out. The walk comes to an end, it removes nothing but what is
at or below its root, and nothing is left there if it succeeds.
-/

namespace Mvsmf

/-! ## The tree -/

def EBCDIC_SLASH : UInt8 := 0x61

/-- A node by the names on the way to it. -/
abbrev UssNode := List (List UInt8)

/-- The name of an entry: a part of a path, and neither `.` nor `..`. -/
structure EntryName (name : List UInt8) : Prop where
  ne_nil : name ≠ []
  no_slash : EBCDIC_SLASH ∉ name
  not_self : isSelfOrParent name = false

/-- A finite tree. -/
structure UssTree where
  nodes : Finset UssNode
  dirs : Finset UssNode
  dirs_sub : dirs ⊆ nodes
  parent : ∀ n name, n ++ [name] ∈ nodes → n ∈ dirs
  names : ∀ n name, n ++ [name] ∈ nodes → EntryName name

/-- Without a node that nothing is below. -/
def UssTree.erase (s : UssTree) (n : UssNode) (leaf : ∀ name, n ++ [name] ∉ s.nodes) : UssTree where
  nodes := s.nodes.erase n
  dirs := s.dirs.erase n
  dirs_sub := Finset.erase_subset_erase n s.dirs_sub
  parent m name hm := by
    have hmem := Finset.mem_of_mem_erase hm
    refine Finset.mem_erase.mpr ⟨?_, s.parent m name hmem⟩
    rintro rfl
    exact leaf name hmem
  names m name hm := s.names m name (Finset.mem_of_mem_erase hm)

theorem UssTree.leaf_of_file {s : UssTree} {n : UssNode} (h : n ∉ s.dirs) :
    ∀ name, n ++ [name] ∉ s.nodes := fun name hmem => h (s.parent n name hmem)

/-- Behind a node there is nothing if there is nothing in it. -/
theorem UssTree.eq_of_prefix {s : UssTree} {n m : UssNode} (leaf : ∀ name, n ++ [name] ∉ s.nodes)
    (hm : m ∈ s.nodes) (h : n <+: m) : m = n := by
  obtain ⟨rest, rfl⟩ := h
  induction rest using List.reverseRecOn with
  | nil => exact List.append_nil n
  | append_singleton rest name ih =>
    rw [← List.append_assoc] at hm
    have hparent := s.parent (n ++ rest) name hm
    have hrest := ih (s.dirs_sub hparent)
    rw [hrest] at hm
    exact absurd hm (leaf name)

/-! ## The calls -/

/-- Paths of this length libufs refuses. -/
def UFS_REFUSED : Nat := 252

/-- The tree, and what is still to be read of the open directories, the last one opened first. -/
structure UssFs where
  tree : UssTree
  streams : List (UssPath × List UssDirEntry)

/-- What may be read of a directory: its own name and its parent's, and what is in it, each once. -/
structure DirStream (s : UssTree) (n : UssNode) (entries : List UssDirEntry) : Prop where
  once : (entries.map (·.name)).Nodup
  entry : ∀ e ∈ entries, isSelfOrParent e.name = true ∨ n ++ [e.name] ∈ s.nodes

/-- A call and its answer, with the node that a path names. -/
inductive UfsStep (node : UssPath → Option UssNode) : UssFs → UfsEvent → UssFs → Prop
  | notOpened {fs : UssFs} {path : UssPath} : UfsStep node fs ⟨.diropen path, false⟩ fs
  | opened {fs : UssFs} {path : UssPath} {n : UssNode} {entries : List UssDirEntry} :
    path.length < UFS_REFUSED → node path = some n → n ∈ fs.tree.dirs →
      DirStream fs.tree n entries →
      UfsStep node fs ⟨.diropen path, true⟩ { fs with streams := (path, entries) :: fs.streams }
  | read {s : UssTree} {path : UssPath} {e : UssDirEntry} {entries : List UssDirEntry}
    {streams : List (UssPath × List UssDirEntry)} :
    UfsStep node ⟨s, (path, e :: entries) :: streams⟩ ⟨.dirread path, some e⟩
      ⟨s, (path, entries) :: streams⟩
  | readEnd {s : UssTree} {path : UssPath} {streams : List (UssPath × List UssDirEntry)} :
    UfsStep node ⟨s, (path, []) :: streams⟩ ⟨.dirread path, none⟩ ⟨s, (path, []) :: streams⟩
  | closed {s : UssTree} {path : UssPath} {entries : List UssDirEntry}
    {streams : List (UssPath × List UssDirEntry)} :
    UfsStep node ⟨s, (path, entries) :: streams⟩ ⟨.dirclose path, ()⟩ ⟨s, streams⟩
  | notRemoved {fs : UssFs} {path : UssPath} {rc : Int} : rc ≠ 0 →
    UfsStep node fs ⟨.remove path, rc⟩ fs
  | removed {fs : UssFs} {path : UssPath} {n : UssNode} : path.length < UFS_REFUSED →
    node path = some n → n ∈ fs.tree.nodes → (hfile : n ∉ fs.tree.dirs) →
      UfsStep node fs ⟨.remove path, (0 : Int)⟩
        { fs with tree := fs.tree.erase n (UssTree.leaf_of_file hfile) }
  | dirKept {fs : UssFs} {path : UssPath} {rc : Int} : rc ≠ 0 →
    UfsStep node fs ⟨.rmdir path, rc⟩ fs
  | dirRemoved {fs : UssFs} {path : UssPath} {n : UssNode} : path.length < UFS_REFUSED →
    node path = some n → n ∈ fs.tree.dirs → (hempty : ∀ name, n ++ [name] ∉ fs.tree.nodes) →
      UfsStep node fs ⟨.rmdir path, (0 : Int)⟩ { fs with tree := fs.tree.erase n hempty }

/-- The name behind a path is that of an entry of the node the path names. -/
def NamesEntries (node : UssPath → Option UssNode) : Prop :=
  ∀ path n name, node path = some n → EntryName name →
    node (path ++ EBCDIC_SLASH :: name) = some (n ++ [name])

abbrev UfsTrace (node : UssPath → Option UssNode) := Prog.Steps (UfsStep node)

/-! ## What is removed -/

/-- The nodes that are gone are at or below a node. -/
structure Swept (s s' : UssTree) (n : UssNode) : Prop where
  only : ∀ m ∈ s.nodes, m ∉ s'.nodes → n <+: m
  nodes : s'.nodes ⊆ s.nodes
  dirs : ∀ m ∈ s'.nodes, m ∈ s'.dirs ↔ m ∈ s.dirs

theorem Swept.refl (s : UssTree) (n : UssNode) : Swept s s n :=
  ⟨fun _ hm hn => absurd hm hn, Finset.Subset.refl _, fun _ _ => Iff.rfl⟩

theorem Swept.trans {s s' s'' : UssTree} {n : UssNode} (h : Swept s s' n) (h' : Swept s' s'' n) :
    Swept s s'' n where
  only m hm hgone := by
    by_cases hmid : m ∈ s'.nodes
    · exact h'.only m hmid hgone
    · exact h.only m hm hmid
  nodes := h'.nodes.trans h.nodes
  dirs m hm := (h'.dirs m hm).trans (h.dirs m (h'.nodes hm))

theorem Swept.of_child {s s' : UssTree} {n : UssNode} {name : List UInt8}
    (h : Swept s s' (n ++ [name])) : Swept s s' n where
  only m hm hgone := (List.prefix_append n [name]).trans (h.only m hm hgone)
  nodes := h.nodes
  dirs := h.dirs

theorem swept_erase {s : UssTree} {n : UssNode} (leaf : ∀ name, n ++ [name] ∉ s.nodes) :
    Swept s (s.erase n leaf) n where
  only m hm hgone := by
    have heq : m = n := by
      by_contra hne
      exact hgone (Finset.mem_erase.mpr ⟨hne, hm⟩)
    exact heq ▸ List.prefix_rfl
  nodes := Finset.erase_subset n s.nodes
  dirs m hm := by
    refine ⟨Finset.mem_of_mem_erase, fun h => Finset.mem_erase.mpr ⟨?_, h⟩⟩
    exact (Finset.mem_erase.mp hm).1

/-- An entry was read whose path does not fit the buffer. -/
def CutRead (pathMax : Nat) (t : List UfsEvent) : Prop :=
  ∃ path e, ⟨.dirread path, some e⟩ ∈ t ∧ isSelfOrParent e.name = false ∧
    pathMax ≤ (path ++ EBCDIC_SLASH :: e.name).length

/-- What the walk from a path comes to. -/
structure Walk (node : UssPath → Option UssNode) (pathMax : Nat) (path : UssPath) (fs fs' : UssFs)
    (t : List UfsEvent) (rc : Int) : Prop where
  streams : fs'.streams = fs.streams
  only : fs'.tree = fs.tree ∨ ∃ n, node path = some n ∧ Swept fs.tree fs'.tree n
  gone : rc = 0 → ∃ n, node path = some n ∧ ∀ m ∈ fs'.tree.nodes, ¬n <+: m
  refused : UFS_REFUSED ≤ path.length → rc ≠ 0 ∧ fs'.tree = fs.tree
  cut : CutRead pathMax t → rc ≠ 0

/-- What the loop over the entries of a directory comes to. -/
structure EntriesWalk (pathMax : Nat) (n : UssNode) (streams : List (UssPath × List UssDirEntry))
    (fs fs' : UssFs) (t : List UfsEvent) (rc : Int) : Prop where
  streams : fs'.streams = streams
  swept : Swept fs.tree fs'.tree n
  gone : rc = 0 → ∀ m ∈ fs'.tree.nodes, ¬n <+: m
  cut : CutRead pathMax t → rc ≠ 0

theorem cutRead_append {pathMax : Nat} {t t' : List UfsEvent} :
    CutRead pathMax (t ++ t') ↔ CutRead pathMax t ∨ CutRead pathMax t' := by
  constructor
  · rintro ⟨path, e, hmem, h⟩
    exact (List.mem_append.mp hmem).imp (fun hmem => ⟨path, e, hmem, h⟩) fun hmem => ⟨path, e, hmem, h⟩
  · rintro (⟨path, e, hmem, h⟩ | ⟨path, e, hmem, h⟩)
    · exact ⟨path, e, List.mem_append_left _ hmem, h⟩
    · exact ⟨path, e, List.mem_append_right _ hmem, h⟩

theorem not_cutRead_nil {pathMax : Nat} : ¬CutRead pathMax [] := fun ⟨_, _, hmem, _⟩ => nomatch hmem

/-- Only what is read of a directory can be cut. -/
theorem cutRead_cons {pathMax : Nat} {e : UfsEvent} {t : List UfsEvent} :
    CutRead pathMax (e :: t) ↔
      (∃ path entry, e = ⟨.dirread path, some entry⟩ ∧ isSelfOrParent entry.name = false ∧
        pathMax ≤ (path ++ EBCDIC_SLASH :: entry.name).length) ∨ CutRead pathMax t := by
  constructor
  · rintro ⟨path, entry, hmem, h⟩
    rcases List.mem_cons.mp hmem with rfl | hmem
    · exact .inl ⟨path, entry, rfl, h⟩
    · exact .inr ⟨path, entry, hmem, h⟩
  · rintro (⟨path, entry, rfl, h⟩ | ⟨path, entry, hmem, h⟩)
    · exact ⟨path, entry, List.mem_cons_self, h⟩
    · exact ⟨path, entry, List.mem_cons_of_mem _ hmem, h⟩

/-! ## One call -/

section

variable {node : UssPath → Option UssNode} {pathMax : Nat} {path : UssPath} {fs fs' : UssFs} {rc : Int}

theorem walk_remove (h : UfsStep node fs ⟨.remove path, rc⟩ fs') :
    Walk node pathMax path fs fs' [⟨.remove path, rc⟩] rc := by
  have hcut : ¬CutRead pathMax [⟨.remove path, rc⟩] := by
    rw [cutRead_cons]
    rintro (⟨_, _, heq, -⟩ | hnil)
    · cases heq
    · exact not_cutRead_nil hnil
  cases h with
  | notRemoved hrc =>
    exact ⟨rfl, .inl rfl, fun h => absurd h hrc, fun _ => ⟨hrc, rfl⟩, fun _ => hrc⟩
  | removed hlen hn _ hfile =>
    refine ⟨rfl, .inr ⟨_, hn, swept_erase (UssTree.leaf_of_file hfile)⟩,
      fun _ => ⟨_, hn, fun m hm hpre => ?_⟩,
      fun hlong => absurd hlen (Nat.not_lt.mpr hlong), fun h => absurd h hcut⟩
    obtain ⟨hne, hmem⟩ := Finset.mem_erase.mp hm
    exact hne (UssTree.eq_of_prefix (UssTree.leaf_of_file hfile) hmem hpre)

/-- A directory is removed when nothing is in it. -/
theorem gone_of_rmdir {n : UssNode} (hn : node path = some n)
    (h : UfsStep node fs ⟨.rmdir path, rc⟩ fs') :
    fs'.streams = fs.streams ∧ Swept fs.tree fs'.tree n ∧
      (rc = 0 → ∀ m ∈ fs'.tree.nodes, ¬n <+: m) := by
  cases h with
  | dirKept hrc => exact ⟨rfl, .refl _ _, fun h => absurd h hrc⟩
  | dirRemoved _ hn' _ hempty =>
    cases hn.symm.trans hn'
    refine ⟨rfl, swept_erase hempty, fun _ m hm hpre => ?_⟩
    obtain ⟨hne, hmem⟩ := Finset.mem_erase.mp hm
    exact hne (UssTree.eq_of_prefix hempty hmem hpre)

/-- There are no more names to read than nodes, and two. -/
theorem DirStream.length_le {s : UssTree} {n : UssNode} {entries : List UssDirEntry}
    (h : DirStream s n entries) : entries.length ≤ s.nodes.card + 2 := by
  have hsub : (entries.map (·.name)).toFinset ⊆
      s.nodes.image (fun m => m.getLastD []) ∪ {[0x4B], [0x4B, 0x4B]} := by
    intro name hname
    obtain ⟨e, he, rfl⟩ := List.mem_map.mp (List.mem_toFinset.mp hname)
    rcases h.entry e he with hself | hmem
    · refine Finset.mem_union_right _ ?_
      rw [isSelfOrParent, Bool.or_eq_true, beq_iff_eq, beq_iff_eq] at hself
      exact Finset.mem_insert.mpr (hself.imp_right Finset.mem_singleton.mpr)
    · refine Finset.mem_union_left _ (Finset.mem_image.mpr ⟨_, hmem, ?_⟩)
      rw [List.getLastD_concat]
  have hcard := Finset.card_le_card hsub
  rw [List.toFinset_card_of_nodup h.once, List.length_map] at hcard
  have hself : ({[0x4B], [0x4B, 0x4B]} : Finset (List UInt8)).card ≤ 2 := Finset.card_le_two
  have hnodes := Finset.card_image_le (s := s.nodes) (f := fun m => m.getLastD ([] : List UInt8))
  have hunion := Finset.card_union_le (s.nodes.image fun m => m.getLastD ([] : List UInt8))
    {[0x4B], [0x4B, 0x4B]}
  omega

end

/-! ## The walk -/

/-- As many turns as a walk takes from a path of a length, with so many entries in a directory. -/
def ussFuel (width length : Nat) : Nat := (UFS_REFUSED - length) * (width + 2) + 1

theorem ussFuel_below (width : Nat) {length : Nat} (h : length < UFS_REFUSED) :
    width + 1 + ussFuel width (length + 2) + 1 ≤ ussFuel width length := by
  have hle : (UFS_REFUSED - (length + 2) + 1) * (width + 2) ≤ (UFS_REFUSED - length) * (width + 2) :=
    Nat.mul_le_mul_right _ (by omega)
  rw [Nat.add_mul, Nat.one_mul] at hle
  unfold ussFuel
  omega

theorem ussFuel_anti {width length length' : Nat} (h : length ≤ length' ∨ UFS_REFUSED ≤ length') :
    ussFuel width length' ≤ ussFuel width length := by
  have hle : UFS_REFUSED - length' ≤ UFS_REFUSED - length := by omega
  exact Nat.add_le_add_right (Nat.mul_le_mul_right _ hle) 1

/-- A path that is cut is too long for libufs, and one that is not names the entry. -/
theorem ussFullPath_cases {pathMax : Nat} (hmax : UFS_REFUSED < pathMax) (path : UssPath)
    (name : List UInt8) :
    (pathMax ≤ (path ++ EBCDIC_SLASH :: name).length ∧
        UFS_REFUSED ≤ (ussFullPath pathMax path name).length) ∨
      ((path ++ EBCDIC_SLASH :: name).length < pathMax ∧
        ussFullPath pathMax path name = path ++ EBCDIC_SLASH :: name) := by
  have hfull : ussFullPath pathMax path name = (path ++ EBCDIC_SLASH :: name).take (pathMax - 1) := rfl
  rcases Nat.lt_or_ge (path ++ EBCDIC_SLASH :: name).length pathMax with hlt | hge
  · exact .inr ⟨hlt, by rw [hfull, List.take_of_length_le (Nat.le_sub_one_of_lt hlt)]⟩
  · refine .inl ⟨hge, ?_⟩
    rw [hfull, List.length_take]
    omega

section

variable {node : UssPath → Option UssNode} {pathMax width : Nat}

/-- What a walk from a path is to come to. -/
def WalkSpec (node : UssPath → Option UssNode) (pathMax width fuel : Nat) (path : UssPath)
    (t : List UfsEvent) (r : Option Int) : Prop :=
  ∀ fs fs', UfsTrace node fs t fs' → fs.tree.nodes.card + 2 ≤ width →
    ussFuel width path.length ≤ fuel → ∃ rc, r = some rc ∧ Walk node pathMax path fs fs' t rc

/-- What the loop is to come to, with the entries that are left to read. -/
def EntriesSpec (node : UssPath → Option UssNode) (pathMax width fuel : Nat) (path : UssPath)
    (t : List UfsEvent) (r : Option Int) : Prop :=
  ∀ fs fs' n entries streams, fs.streams = (path, entries) :: streams → UfsTrace node fs t fs' →
    node path = some n → (∀ e ∈ entries, isSelfOrParent e.name = true ∨ EntryName e.name) →
    fs.tree.nodes.card + 2 ≤ width → path.length < UFS_REFUSED →
    entries.length + 1 + ussFuel width (path.length + 2) ≤ fuel →
      ∃ rc, r = some rc ∧ EntriesWalk pathMax n streams fs fs' t rc

/-- Behind the last entry the directory is removed. -/
theorem entries_end {fuel : Nat} {path : UssPath} {rc : Int} :
    EntriesSpec node pathMax width fuel path
      [⟨.dirread path, none⟩, ⟨.dirclose path, ()⟩, ⟨.rmdir path, rc⟩] (some rc) := by
  rintro ⟨s, streams'⟩ fs' n entries streams rfl htrace hn - - - -
  cases htrace with
  | cons hread htrace =>
    cases hread
    cases htrace with
    | cons hclose htrace =>
      cases hclose
      obtain ⟨hstreams, hswept, hgone⟩ := gone_of_rmdir hn (Prog.steps_singleton.mp htrace)
      refine ⟨rc, rfl, hstreams, hswept, hgone, fun hcut => ?_⟩
      simp only [cutRead_cons] at hcut
      rcases hcut with ⟨_, _, heq, -⟩ | ⟨_, _, heq, -⟩ | ⟨_, _, heq, -⟩ | hnil
      · cases heq
      · cases heq
      · cases heq
      · exact absurd hnil not_cutRead_nil

/-- `.` and `..` are passed over. -/
theorem entries_skip {fuel : Nat} {path : UssPath} {entry : UssDirEntry} {t : List UfsEvent}
    {r : Option Int} (hself : isSelfOrParent entry.name = true)
    (h : EntriesSpec node pathMax width fuel path t r) :
    EntriesSpec node pathMax width (fuel + 1) path (⟨.dirread path, some entry⟩ :: t) r := by
  rintro ⟨s, streams'⟩ fs' n entries streams rfl htrace hn hentries hwidth hshort hfuel
  cases htrace with
  | cons hread htrace =>
    cases hread
    next entries =>
      rw [List.length_cons] at hfuel
      obtain ⟨rc, hr, hwalk⟩ := h _ fs' n entries streams rfl htrace hn
        (fun e he => hentries e (List.mem_cons_of_mem _ he)) hwidth hshort (by omega)
      refine ⟨rc, hr, hwalk.streams, hwalk.swept, hwalk.gone, fun hcut => ?_⟩
      rcases cutRead_cons.mp hcut with ⟨_, _, heq, hname, -⟩ | hcut
      · cases heq
        rw [hself] at hname
        cases hname
      · exact hwalk.cut hcut

/-- An entry is removed, and what is read behind it. -/
theorem entries_next (hnode : NamesEntries node) (hmax : UFS_REFUSED < pathMax) {fuel : Nat}
    {path : UssPath} {entry : UssDirEntry} {t t' : List UfsEvent} {code r : Option Int}
    (hself : isSelfOrParent entry.name = false)
    (h : WalkSpec node pathMax width fuel (ussFullPath pathMax path entry.name) t code)
    (hnext : code = some 0 → EntriesSpec node pathMax width fuel path t' r)
    (hstop : ∀ rc, code = some rc → rc ≠ 0 → t' = [⟨.dirclose path, ()⟩] ∧ r = some rc) :
    EntriesSpec node pathMax width (fuel + 1) path (⟨.dirread path, some entry⟩ :: (t ++ t')) r := by
  rintro ⟨s, streams'⟩ fs' n entries streams rfl htrace hn hentries hwidth hshort hfuel
  cases htrace with
  | cons hread htrace =>
    cases hread
    next entries =>
      obtain ⟨fs₁, htrace, htrace'⟩ := Prog.steps_append.mp htrace
      have hname : EntryName entry.name :=
        (hentries entry List.mem_cons_self).resolve_left (by rw [hself]; exact Bool.false_ne_true)
      have hlength : 0 < entry.name.length := List.length_pos_iff.mpr hname.ne_nil
      have hcases := ussFullPath_cases hmax path entry.name
      have hcall : ussFuel width (ussFullPath pathMax path entry.name).length ≤
          ussFuel width (path.length + 2) := by
        refine ussFuel_anti ?_
        rcases hcases with ⟨-, hlong⟩ | ⟨-, hfull⟩
        · exact .inr hlong
        · rw [hfull, List.length_append, List.length_cons]
          exact .inl (by omega)
      rw [List.length_cons] at hfuel
      obtain ⟨rc, rfl, hwalk⟩ := h _ fs₁ htrace hwidth (by omega)
      -- what is gone is at or below the entry, which is cut or in the directory
      have hswept : Swept s fs₁.tree n := by
        rcases hcases with ⟨-, hlong⟩ | ⟨-, hfull⟩
        · have hsame : fs₁.tree = s := (hwalk.refused hlong).2
          rw [hsame]
          exact .refl s n
        · rcases hwalk.only with hsame | ⟨m, hm, hswept⟩
          · have hsame : fs₁.tree = s := hsame
            rw [hsame]
            exact .refl s n
          · rw [hfull, hnode path n entry.name hn hname] at hm
            cases hm
            exact hswept.of_child
      have hcutEntry : pathMax ≤ (path ++ EBCDIC_SLASH :: entry.name).length → rc ≠ 0 := by
        intro hlong
        rcases hcases with ⟨-, hrefused⟩ | ⟨hshort, -⟩
        · exact (hwalk.refused hrefused).1
        · exact absurd hlong (Nat.not_le_of_lt hshort)
      have hcutRead : CutRead pathMax (⟨.dirread path, some entry⟩ :: (t ++ t')) →
          rc ≠ 0 ∨ CutRead pathMax t' := by
        intro hcut
        rcases cutRead_cons.mp hcut with ⟨_, _, heq, -, hlong⟩ | hcut
        · cases heq
          exact .inl (hcutEntry hlong)
        · exact (cutRead_append.mp hcut).imp_left hwalk.cut
      by_cases hrc : rc = 0
      · have hwidth' : fs₁.tree.nodes.card + 2 ≤ width :=
          Nat.le_trans (Nat.add_le_add_right (Finset.card_le_card hswept.nodes) 2) hwidth
        obtain ⟨rc', hr, hrest⟩ := hnext (congrArg some hrc) fs₁ fs' n entries streams
          hwalk.streams htrace' hn
          (fun e he => hentries e (List.mem_cons_of_mem _ he)) hwidth' hshort (by omega)
        refine ⟨rc', hr, hrest.streams, hswept.trans hrest.swept, hrest.gone, fun hcut => ?_⟩
        exact (hcutRead hcut).elim (fun h => absurd hrc h) hrest.cut
      · obtain ⟨rfl, rfl⟩ := hstop rc rfl hrc
        obtain ⟨s₁, streams₁⟩ := fs₁
        obtain rfl : streams₁ = (path, entries) :: streams := hwalk.streams
        cases Prog.steps_singleton.mp htrace' with
        | closed => exact ⟨rc, rfl, rfl, hswept, fun h => absurd h hrc, fun _ => hrc⟩

/-- An open directory is walked. -/
theorem walk_opened {fuel : Nat} {path : UssPath} {t : List UfsEvent} {r : Option Int}
    (h : EntriesSpec node pathMax width fuel path t r) :
    WalkSpec node pathMax width (fuel + 1) path (⟨.diropen path, true⟩ :: t) r := by
  intro fs fs' htrace hwidth hfuel
  cases htrace with
  | cons hopen htrace =>
    cases hopen with
    | @opened _ _ n entries hlen hn hdir hstream =>
      have hentries : ∀ e ∈ entries, isSelfOrParent e.name = true ∨ EntryName e.name :=
        fun e he => (hstream.entry e he).imp_right (fs.tree.names n e.name)
      have hroom : entries.length + 1 + ussFuel width (path.length + 2) ≤ fuel := by
        have hlength := hstream.length_le
        have hbelow := ussFuel_below width hlen
        omega
      obtain ⟨rc, hr, hwalk⟩ := h _ fs' n entries fs.streams rfl htrace hn hentries hwidth hlen hroom
      refine ⟨rc, hr, hwalk.streams, .inr ⟨n, hn, hwalk.swept⟩, fun hrc => ⟨n, hn, hwalk.gone hrc⟩,
        fun hlong => absurd hlen (Nat.not_lt.mpr hlong), fun hcut => ?_⟩
      rcases cutRead_cons.mp hcut with ⟨_, _, heq, -⟩ | hcut
      · cases heq
      · exact hwalk.cut hcut

theorem walk_notOpened {fuel : Nat} {path : UssPath} :
    WalkSpec node pathMax width fuel path [⟨.diropen path, false⟩] (some (-1)) := by
  intro fs fs' htrace _ _
  cases Prog.steps_singleton.mp htrace with
  | notOpened =>
    exact ⟨-1, rfl, rfl, .inl rfl, nofun, fun _ => ⟨by decide, rfl⟩, fun _ => by decide⟩

/-- What every walk comes to, by induction on the turns. -/
theorem ussRecursiveDelete_walk (hnode : NamesEntries node) (hmax : UFS_REFUSED < pathMax)
    (width fuel : Nat) :
    (∀ path, (ussRecursiveDelete pathMax fuel path).Every (WalkSpec node pathMax width fuel path)) ∧
      ∀ path, (ussDeleteEntries pathMax fuel path).Every (EntriesSpec node pathMax width fuel path) := by
  induction fuel with
  | zero =>
    refine ⟨fun path fs fs' _ _ hfuel => ?_, fun path fs fs' n entries streams _ _ _ _ _ _ hfuel => ?_⟩
    · exact absurd hfuel (Nat.not_succ_le_zero _)
    · exact absurd hfuel (by omega)
  | succ fuel ih =>
    obtain ⟨ihDelete, ihEntries⟩ := ih
    constructor
    · intro path
      rw [ussRecursiveDelete]
      simp only [ufs, Prog.every_bind, Prog.every_ask]
      intro opened
      cases opened with
      | true => exact (ihEntries path).imp fun t r h => walk_opened h
      | false => exact walk_notOpened
    · intro path
      rw [ussDeleteEntries]
      simp only [ufs, Prog.every_bind, Prog.every_ask]
      intro entry
      cases entry with
      | none =>
        simp only [Prog.every_bind, Prog.every_ask, Prog.every_ret]
        exact fun closed rc => entries_end
      | some entry =>
        dsimp only
        split
        · next hself => exact (ihEntries path).imp fun t r h => entries_skip hself h
        · next hself =>
          have hself : isSelfOrParent entry.name = false := Bool.not_eq_true _ ▸ hself
          have hentry : Prog.Every (if entry.isDir = true then
                ussRecursiveDelete pathMax fuel (ussFullPath pathMax path entry.name)
              else ussCode (.remove (ussFullPath pathMax path entry.name)) rfl)
              (WalkSpec node pathMax width fuel (ussFullPath pathMax path entry.name)) := by
            split
            · exact ihDelete _
            · exact fun rc fs fs' htrace _ _ => ⟨rc, rfl, walk_remove (Prog.steps_singleton.mp htrace)⟩
          simp only [Prog.every_bind]
          refine hentry.imp fun t code h => ?_
          cases code with
          | none =>
            show EntriesSpec node pathMax width (fuel + 1) path
              (⟨.dirread path, some entry⟩ :: (t ++ [])) none
            exact entries_next (t := t) hnode hmax hself h (by simp) (by simp)
          | some rc =>
            dsimp only
            split
            · next hrc =>
              simp only [Prog.every_bind, Prog.every_ask, Prog.every_ret]
              intro closed
              show EntriesSpec node pathMax width (fuel + 1) path
                (⟨.dirread path, some entry⟩ :: (t ++ [⟨.dirclose path, closed⟩])) (some rc)
              exact entries_next (t := t) hnode hmax hself h
                (fun hzero => absurd (Option.some.inj hzero) hrc) fun _ heq _ => ⟨rfl, heq⟩
            · next hrc =>
              refine (ihEntries path).imp fun t' r hrest => ?_
              show EntriesSpec node pathMax width (fuel + 1) path
                (⟨.dirread path, some entry⟩ :: (t ++ t')) r
              exact entries_next (t := t) hnode hmax hself h (fun _ => hrest)
                fun rc' heq hne => absurd (Option.some.inj heq ▸ not_not.mp hrc) hne

end

/-- **Deleting a tree.** With turns enough for the tree a walk has a return code, whatever UFS refuses:
it has then removed nothing but nodes at or below its root; nothing is left there if it returns 0; and
it does not return 0 where a call was refused or a path did not fit its buffer. -/
theorem ussRecursiveDelete_tree {node : UssPath → Option UssNode} (hnode : NamesEntries node)
    {pathMax : Nat} (hmax : UFS_REFUSED < pathMax) (s : UssTree) (path : UssPath) {fuel : Nat}
    (hfuel : ussFuel (s.nodes.card + 2) path.length ≤ fuel) {t : List UfsEvent} {r : Option Int}
    {fs : UssFs} (hrun : Prog.Run (ussRecursiveDelete pathMax fuel path) t r)
    (htrace : UfsTrace node ⟨s, []⟩ t fs) :
    ∃ rc, r = some rc ∧
      (∀ m ∈ s.nodes, m ∉ fs.tree.nodes → ∃ n, node path = some n ∧ n <+: m) ∧
      (∀ m ∈ fs.tree.nodes, m ∈ s.nodes ∧ (m ∈ fs.tree.dirs ↔ m ∈ s.dirs)) ∧
      (rc = 0 → ∃ n, node path = some n ∧ ∀ m ∈ fs.tree.nodes, ¬n <+: m) ∧
      ((∃ e ∈ t, Lost e) ∨ CutRead pathMax t → rc ≠ 0) := by
  have hwalk := (ussRecursiveDelete_walk hnode hmax (s.nodes.card + 2) fuel).1 path
  obtain ⟨rc, rfl, hwalk⟩ :=
    Prog.every_iff.mp hwalk t r hrun ⟨s, []⟩ fs htrace (Nat.le_refl _) hfuel
  have hdeleted := Prog.every_iff.mp ((ussRecursiveDelete_deleted pathMax fuel).1 path) t _ hrun
  refine ⟨rc, rfl, fun m hm hgone => ?_, fun m hm => ?_, hwalk.gone, ?_⟩
  · rcases hwalk.only with hsame | ⟨n, hn, hswept⟩
    · exact absurd (hsame ▸ hm) hgone
    · exact ⟨n, hn, hswept.only m hm hgone⟩
  · rcases hwalk.only with hsame | ⟨n, hn, hswept⟩
    · rw [hsame] at hm ⊢
      exact ⟨hm, Iff.rfl⟩
    · exact ⟨hswept.nodes hm, hswept.dirs m hm⟩
  · rintro (⟨e, he, hlost⟩ | hcut) hrc
    · exact hdeleted.kept (congrArg some hrc) e he hlost
    · exact hwalk.cut hcut hrc

/-! ## Paths of names -/

/-- The names so far and the one that has begun, behind a byte. -/
def pathStep (st : UssNode × List UInt8) (c : UInt8) : UssNode × List UInt8 :=
  if c = EBCDIC_SLASH then (if st.2 = [] then st.1 else st.1 ++ [st.2], []) else (st.1, st.2 ++ [c])

/-- The names between the slashes of a path. -/
def pathNames (path : UssPath) : UssNode :=
  let st := path.foldl pathStep ([], [])
  if st.2 = [] then st.1 else st.1 ++ [st.2]

theorem foldl_pathStep {name : List UInt8} (h : EBCDIC_SLASH ∉ name) (st : UssNode × List UInt8) :
    name.foldl pathStep st = (st.1, st.2 ++ name) := by
  induction name generalizing st with
  | nil => rw [List.append_nil, List.foldl_nil]
  | cons c name ih =>
    have hc : c ≠ EBCDIC_SLASH := fun hc => h (hc ▸ List.mem_cons_self)
    rw [List.foldl_cons, ih fun hmem => h (List.mem_cons_of_mem c hmem), pathStep, if_neg hc,
      List.append_assoc]
    rfl

theorem namesEntries_pathNames : NamesEntries fun path => some (pathNames path) := by
  rintro path n name ⟨⟩ hname
  refine congrArg some ?_
  rw [pathNames, List.foldl_append, List.foldl_cons, foldl_pathStep hname.no_slash, pathStep,
    if_pos rfl, List.nil_append]
  exact if_neg hname.ne_nil

theorem eq_of_concat {n m : UssNode} {name last : List UInt8} (h : n ++ [name] = m ++ [last]) :
    n = m ∧ name = last := by
  obtain ⟨hn, hname⟩ := List.append_inj' h rfl
  exact ⟨hn, (List.cons.inj hname).1⟩

/-- A directory with a file. -/
def oneFileTree : UssTree where
  nodes := {[], [[0x81]], [[0x81], [0x82]]}
  dirs := {[], [[0x81]]}
  dirs_sub := by decide
  parent n name h := by
    simp only [Finset.mem_insert, Finset.mem_singleton] at h
    rcases h with h | h | h
    · exact absurd h (List.append_ne_nil_of_right_ne_nil n (List.cons_ne_nil name []))
    · obtain ⟨rfl, -⟩ := eq_of_concat (m := []) h
      exact Finset.mem_insert_self _ _
    · obtain ⟨rfl, -⟩ := eq_of_concat (m := [[0x81]]) h
      exact Finset.mem_insert_of_mem (Finset.mem_singleton_self _)
  names n name h := by
    simp only [Finset.mem_insert, Finset.mem_singleton] at h
    rcases h with h | h | h
    · exact absurd h (List.append_ne_nil_of_right_ne_nil n (List.cons_ne_nil name []))
    · obtain ⟨-, rfl⟩ := eq_of_concat (m := []) h
      exact ⟨List.cons_ne_nil _ _, by decide, rfl⟩
    · obtain ⟨-, rfl⟩ := eq_of_concat (m := [[0x81]]) h
      exact ⟨List.cons_ne_nil _ _, by decide, rfl⟩

def oneFileTrace : List UfsEvent :=
  [⟨.diropen [0x61, 0x81], true⟩, ⟨.dirread [0x61, 0x81], some ⟨[0x82], false⟩⟩,
    ⟨.remove [0x61, 0x81, 0x61, 0x82], (0 : Int)⟩, ⟨.dirread [0x61, 0x81], none⟩,
    ⟨.dirclose [0x61, 0x81], ()⟩, ⟨.rmdir [0x61, 0x81], (0 : Int)⟩]

theorem oneFile_run (fuel : Nat) :
    Prog.Run (ussRecursiveDelete 256 (fuel + 3) [0x61, 0x81]) oneFileTrace (some 0) := by
  rw [ussRecursiveDelete]
  refine @Prog.Run.call UfsCall UfsCall.Ans _ (.diropen [0x61, 0x81]) _ true _ _ ?_
  show Prog.Run (ussDeleteEntries 256 (fuel + 2) [0x61, 0x81]) _ _
  rw [ussDeleteEntries]
  refine @Prog.Run.call UfsCall UfsCall.Ans _ (.dirread [0x61, 0x81]) _ (some ⟨[0x82], false⟩) _ _ ?_
  refine @Prog.Run.call UfsCall UfsCall.Ans _ (.remove [0x61, 0x81, 0x61, 0x82]) _ (0 : Int) _ _ ?_
  show Prog.Run (ussDeleteEntries 256 (fuel + 1) [0x61, 0x81]) _ _
  rw [ussDeleteEntries]
  refine @Prog.Run.call UfsCall UfsCall.Ans _ (.dirread [0x61, 0x81]) _ none _ _ ?_
  refine @Prog.Run.call UfsCall UfsCall.Ans _ (.dirclose [0x61, 0x81]) _ () _ _ ?_
  exact @Prog.Run.call UfsCall UfsCall.Ans _ (.rmdir [0x61, 0x81]) _ (0 : Int) _ _ .ret

theorem oneFile_trace :
    ∃ fs, UfsTrace (fun path => some (pathNames path)) ⟨oneFileTree, []⟩ oneFileTrace fs := by
  have hstream : DirStream oneFileTree [[0x81]] [⟨[0x82], false⟩] :=
    ⟨List.nodup_singleton _, fun e he => .inr (by rw [List.mem_singleton.mp he]; decide)⟩
  have hfile : [[0x81], [0x82]] ∉ oneFileTree.dirs := by decide
  have hempty : ∀ name, [[0x81]] ++ [name] ∉
      (oneFileTree.erase [[0x81], [0x82]] (UssTree.leaf_of_file hfile)).nodes := by
    intro name h
    obtain ⟨hne, hmem⟩ := Finset.mem_erase.mp h
    simp only [oneFileTree, Finset.mem_insert, Finset.mem_singleton] at hmem
    rcases hmem with hmem | hmem | hmem
    · cases hmem
    · cases hmem
    · exact hne hmem
  have hopen : UfsStep (fun path => some (pathNames path)) ⟨oneFileTree, []⟩
      ⟨.diropen [0x61, 0x81], true⟩ ⟨oneFileTree, [([0x61, 0x81], [⟨[0x82], false⟩])]⟩ :=
    .opened (by decide) rfl (by decide) hstream
  have hremove : UfsStep (fun path => some (pathNames path)) ⟨oneFileTree, [([0x61, 0x81], [])]⟩
      ⟨.remove [0x61, 0x81, 0x61, 0x82], (0 : Int)⟩
      ⟨oneFileTree.erase [[0x81], [0x82]] (UssTree.leaf_of_file hfile), [([0x61, 0x81], [])]⟩ :=
    .removed (by decide) rfl (by decide) hfile
  have hdir : [[0x81]] ∈
      (oneFileTree.erase [[0x81], [0x82]] (UssTree.leaf_of_file hfile)).dirs :=
    Finset.mem_erase.mpr ⟨by decide, by decide⟩
  have hrmdir : UfsStep (fun path => some (pathNames path))
      ⟨oneFileTree.erase [[0x81], [0x82]] (UssTree.leaf_of_file hfile), []⟩
      ⟨.rmdir [0x61, 0x81], (0 : Int)⟩
      ⟨(oneFileTree.erase [[0x81], [0x82]] (UssTree.leaf_of_file hfile)).erase [[0x81]] hempty, []⟩ :=
    .dirRemoved (by decide) rfl hdir hempty
  exact ⟨_, .cons hopen (.cons .read (.cons hremove (.cons .readEnd (.cons .closed
    (.cons hrmdir .nil)))))⟩

theorem ussRecursiveDelete_tree_oneFile :
    NamesEntries (fun path => some (pathNames path)) ∧ UFS_REFUSED < 256 ∧
      ∃ fs, UfsTrace (fun path => some (pathNames path)) ⟨oneFileTree, []⟩ oneFileTrace fs ∧
        ∀ m ∈ fs.tree.nodes, ¬[[0x81]] <+: m := by
  have hmax : UFS_REFUSED < 256 := by decide
  obtain ⟨fs, htrace⟩ := oneFile_trace
  obtain ⟨rc, hrc, -, -, hgone, -⟩ := ussRecursiveDelete_tree namesEntries_pathNames hmax oneFileTree
    [0x61, 0x81] (by decide : _ ≤ 1748 + 3) (oneFile_run 1748) htrace
  obtain ⟨n, hn, hbelow⟩ := hgone (Option.some.inj hrc).symm
  cases hn
  exact ⟨namesEntries_pathNames, hmax, fs, htrace, hbelow⟩

end Mvsmf
