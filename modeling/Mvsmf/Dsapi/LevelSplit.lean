import Mvsmf.Dsapi.Names
import Mvsmf.Lib.Glob
import Mvsmf.Lib.Loop

/-!
# The level of a data set list

The catalog is searched by a level, and what a pattern says beyond its level is a filter.
`extract_level_prefix` splits a `dslevel` into the two: the level is what stands before the first
qualifier with a wildcard. A name without wildcards stands for itself and for all names under it, and
as the search brings only those under it the handler looks itself up.
-/

namespace Mvsmf

/-! ## The split -/

def isWild (c : Char) : Bool := c == '*' || c == '?'

/-- The scan of the qualifiers: what is left, its position, where the last qualifier that was begun
starts and where the last one without wildcards ends. -/
structure LevelScan where
  src : List Char
  pos : Nat
  segStart : Nat
  prefixEnd : Option Nat

/-- One qualifier; the scan stops at the first with a wildcard. -/
def levelScanStep (s : LevelScan) : LevelScan ⊕ (Option Nat × Nat) :=
  if s.src = [] then .inr (s.prefixEnd, s.segStart)
  else
    let seg := s.src.takeWhile (· != '.')
    let rest := s.src.dropWhile (· != '.')
    if seg.any isWild then .inr (s.prefixEnd, s.pos)
    else .inl
      { src := rest.drop 1
        pos := s.pos + seg.length + min 1 rest.length
        segStart := s.pos
        prefixEnd := some (s.pos + seg.length) }

/-- The loop: a turn takes the qualifier and the dot behind it. -/
def levelScanLoop : Loop LevelScan (Option Nat × Nat) where
  step := levelScanStep
  measure s := s.src.length
  lowers := by
    intro s s' h
    unfold levelScanStep at h
    split at h
    · cases h
    · next hsrc =>
      dsimp only at h
      split at h
      · cases h
      · cases h
        have hlen := congrArg List.length (List.takeWhile_append_dropWhile (p := (· != '.'))
          (l := s.src))
        have hpos := List.length_pos_iff.mpr hsrc
        rw [List.length_append] at hlen
        rw [List.length_drop]
        omega

/-- `prefix_end` and `seg_start` behind the loop. -/
def levelScan (dslevel : List Char) : Option Nat × Nat :=
  levelScanLoop.exec ⟨dslevel, 0, 0, none⟩

/-- The level, in a buffer of `levelSize`, and the filter. -/
def extractLevelPrefix (dslevel : Option (List Char)) (levelSize : Nat) :
    List Char × Option (List Char) :=
  match dslevel with
  | none => ([], none)
  | some [] => ([], none)
  | some dslevel =>
    if dslevel.any isWild = false then (dslevel.take (levelSize - 1), none)
    else
      let (prefixEnd, segStart) := levelScan dslevel
      let level :=
        match prefixEnd with
        | some plen =>
          if 0 < plen then dslevel.take (min plen (levelSize - 1))
          else dslevel.take (levelSize - 1)
        | none => dslevel.take (levelSize - 1)
      -- a last qualifier `**` behind the level asks for all of it
      if dslevel.drop segStart = ['*', '*'] ∧ prefixEnd.map (· + 1) = some segStart then (level, none)
      else (level, some dslevel)

/-! ## Where the split is made -/

/-- What stands before the first qualifier with a wildcard, its dot included. -/
def cleanPart (dslevel : List Char) : List Char :=
  (dslevel.takeWhile (!isWild ·)).rdropWhile (· != '.')

theorem cleanPart_prefix (dslevel : List Char) : cleanPart dslevel <+: dslevel :=
  (List.rdropWhile_prefix _ _).trans (List.takeWhile_prefix _)

/-- The part ends in a dot if it is not empty. -/
theorem cleanPart_getLast (dslevel : List Char) (h : cleanPart dslevel ≠ []) :
    (cleanPart dslevel).getLast? = some '.' := by
  have hlast : ¬ (cleanPart dslevel).getLast h != '.' := List.rdropWhile_last_not _ _ h
  rw [List.getLast?_eq_some_getLast h, Option.some.injEq]
  simpa using hlast

theorem cleanPart_clean {dslevel : List Char} : ∀ c ∈ cleanPart dslevel, isWild c = false := by
  intro c hc
  have := List.mem_takeWhile_imp ((List.rdropWhile_prefix _ _).subset hc)
  simpa using this

/-- Behind the part comes a qualifier with a wildcard. -/
theorem cleanPart_wild {dslevel : List Char} (h : dslevel.any isWild = true) :
    ∃ w, dslevel = cleanPart dslevel ++ w ∧ (w.takeWhile (· != '.')).any isWild = true := by
  obtain ⟨c, rest, hrest⟩ : ∃ c rest, dslevel.dropWhile (!isWild ·) = c :: rest := by
    refine List.exists_cons_of_ne_nil fun hnil => ?_
    rw [List.any_eq_true] at h
    obtain ⟨c, hc, hwild⟩ := h
    have := List.dropWhile_eq_nil_iff.mp hnil c hc
    simp [hwild] at this
  have hc : isWild c = true := by
    have := List.head?_dropWhile_not (!isWild ·) dslevel
    simpa [hrest] using this
  -- no dot stands between the part and the wildcard
  have htail : ∀ d ∈ (dslevel.takeWhile (!isWild ·)).rtakeWhile (· != '.'), (d != '.') = true :=
    fun d hd => List.mem_rtakeWhile_imp (p := (· != '.')) hd
  have hdot : (c != '.') = true := by
    rw [bne_iff_ne]
    rintro rfl
    cases hc
  refine ⟨(dslevel.takeWhile (!isWild ·)).rtakeWhile (· != '.') ++ c :: rest, ?_, ?_⟩
  · rw [← List.append_assoc, cleanPart, List.rdropWhile_append_rtakeWhile, ← hrest,
      List.takeWhile_append_dropWhile]
  · rw [List.takeWhile_append_of_pos htail, List.takeWhile_cons, if_pos hdot,
      List.any_append, List.any_cons, hc, Bool.true_or, Bool.or_true]

/-- The scan stops behind the clean part. -/
theorem levelScan_exec (w : List Char) (hw : (w.takeWhile (· != '.')).any isWild = true) :
    ∀ (n : Nat) (l : List Char), l.length = n → (l ≠ [] → l.getLast? = some '.') →
      (∀ c ∈ l, isWild c = false) → ∀ (pos segStart : Nat) (prefixEnd : Option Nat),
      levelScanLoop.exec ⟨l ++ w, pos, segStart, prefixEnd⟩ =
        if l = [] then (prefixEnd, pos) else (some (pos + l.length - 1), pos + l.length) := by
  intro n
  induction n using Nat.strongRecOn with
  | _ n ih =>
    intro l hn hlast hclean pos segStart prefixEnd
    by_cases hl : l = []
    · subst hl
      have hne : w ≠ [] := by
        rintro rfl
        cases hw
      rw [if_pos rfl]
      refine levelScanLoop.exec_done ?_
      simp [levelScanLoop, levelScanStep, hne, hw]
    · have hdot : '.' ∈ l := List.mem_of_getLast? (hlast hl)
      obtain ⟨seg, l', rfl, hseg⟩ := List.eq_append_cons_of_mem hdot
      have hseg' : ∀ c ∈ seg, (c != '.') = true := by
        intro c hc
        rw [bne_iff_ne]
        rintro rfl
        exact hseg hc
      have htake : ((seg ++ '.' :: l') ++ w).takeWhile (· != '.') = seg := by
        rw [List.append_assoc, List.takeWhile_append_of_pos hseg']
        simp
      have hdrop : ((seg ++ '.' :: l') ++ w).dropWhile (· != '.') = '.' :: (l' ++ w) := by
        rw [List.append_assoc, List.dropWhile_append_of_pos hseg']
        simp
      have hplain : seg.any isWild = false := by
        rw [List.any_eq_false]
        intro c hc
        simp [hclean c (List.mem_append_left _ hc)]
      have hnext : levelScanLoop.step ⟨(seg ++ '.' :: l') ++ w, pos, segStart, prefixEnd⟩ =
          .inl ⟨l' ++ w, pos + seg.length + 1, pos, some (pos + seg.length)⟩ := by
        simp only [levelScanLoop, levelScanStep, htake, hdrop, hplain]
        simp
      have hlen : (seg ++ '.' :: l').length = seg.length + 1 + l'.length := by
        simp only [List.length_append, List.length_cons]
        omega
      have hlast' : l' ≠ [] → l'.getLast? = some '.' := by
        intro hne
        rw [← hlast hl, List.getLast?_append_of_ne_nil _ (List.cons_ne_nil _ _),
          List.getLast?_cons_of_ne_nil hne]
      rw [levelScanLoop.exec_next hnext, ih l'.length (by omega) l' rfl hlast'
        (fun c hc => hclean c (List.mem_append_right _ (List.mem_cons_of_mem _ hc))), if_neg hl]
      by_cases hl' : l' = []
      · subst hl'
        rw [if_pos rfl, hlen]
        rfl
      · have hpos := List.length_pos_iff.mpr hl'
        rw [if_neg hl', hlen, Prod.mk.injEq, Option.some.injEq]
        constructor
        · omega
        · omega

/-- What the scan leaves of a pattern. -/
theorem levelScan_eq {dslevel : List Char} (h : dslevel.any isWild = true) :
    levelScan dslevel =
      if cleanPart dslevel = [] then (none, 0)
      else (some ((cleanPart dslevel).length - 1), (cleanPart dslevel).length) := by
  obtain ⟨w, hdslevel, hw⟩ := cleanPart_wild h
  have hexec := levelScan_exec w hw _ _ rfl (cleanPart_getLast dslevel)
    (fun c => cleanPart_clean c) 0 0 none
  rw [← hdslevel] at hexec
  rw [levelScan, hexec, Nat.zero_add]

/-- The level of a pattern is its clean part without the last dot, and there is a filter unless the
rest of the pattern is `**`. -/
theorem extractLevelPrefix_wild {dslevel : List Char} {levelSize : Nat}
    (hwild : dslevel.any isWild = true) (hlen : dslevel.length < levelSize)
    (hclean : cleanPart dslevel ≠ []) :
    extractLevelPrefix (some dslevel) levelSize =
      (if (cleanPart dslevel).length = 1 then dslevel else (cleanPart dslevel).dropLast,
        if dslevel = cleanPart dslevel ++ ['*', '*'] then none else some dslevel) := by
  have hscan := levelScan_eq hwild
  rw [if_neg hclean] at hscan
  have hprefix := cleanPart_prefix dslevel
  generalize cleanPart dslevel = l at *
  obtain ⟨w, rfl⟩ := hprefix
  have hpos := List.length_pos_iff.mpr hclean
  rw [List.length_append] at hlen
  have htake : (l ++ w).take (min (l.length - 1) (levelSize - 1)) = l.dropLast := by
    rw [Nat.min_eq_left (by omega), List.take_append_of_le_length (by omega), List.dropLast_eq_take]
  have hall : (l ++ w).take (levelSize - 1) = l ++ w := by
    refine List.take_of_length_le ?_
    rw [List.length_append]
    omega
  have hseg : some (l.length - 1 + 1) = some l.length := by rw [Nat.sub_add_cancel hpos]
  have hstars : l ++ w = l ++ ['*', '*'] ↔ w = ['*', '*'] := List.append_right_inj l
  have hlevel : (if 0 < l.length - 1 then l.dropLast else l ++ w) =
      if l.length = 1 then l ++ w else l.dropLast := by
    split
    · rw [if_neg (by omega)]
    · rw [if_pos (by omega)]
  rw [extractLevelPrefix]
  · simp only [hwild, hscan, htake, hall, List.drop_left, Option.map_some, hseg, hstars, and_true,
      hlevel, Bool.true_eq_false, if_false]
    split
    · rfl
    · rfl
  · intro hnil
    rw [hnil] at hwild
    cases hwild

/-- A name without wildcards is its own level. -/
theorem extractLevelPrefix_plain {dslevel : List Char} {levelSize : Nat}
    (hwild : dslevel.any isWild = false) (hlen : dslevel.length < levelSize) :
    extractLevelPrefix (some dslevel) levelSize = (dslevel, none) := by
  cases dslevel with
  | nil => rfl
  | cons c cs =>
    rw [extractLevelPrefix, if_pos hwild, List.take_of_length_le (by omega)]
    exact nofun

/-- A clean name with `**` below it is a level without a filter. -/
theorem extractLevelPrefix_stars {q : List Char} {levelSize : Nat} (hq : q ≠ [])
    (hclean : ∀ c ∈ q, isWild c = false) (hlen : (q ++ ['.', '*', '*']).length < levelSize) :
    extractLevelPrefix (some (q ++ ['.', '*', '*'])) levelSize = (q, none) := by
  have hpart : cleanPart (q ++ ['.', '*', '*']) = q ++ ['.'] := by
    have hplain : ∀ c ∈ q ++ ['.'], (!isWild c) = true := by
      intro c hc
      rcases List.mem_append.mp hc with hc | hc
      · rw [hclean c hc]
        rfl
      · rw [List.mem_singleton.mp hc]
        rfl
    have htake : (q ++ ['.', '*', '*']).takeWhile (!isWild ·) = q ++ ['.'] := by
      rw [List.append_cons q '.' ['*', '*'], List.takeWhile_append_of_pos hplain]
      exact List.append_nil _
    rw [cleanPart, htake, List.rdropWhile_concat_neg]
    decide
  have hwild : (q ++ ['.', '*', '*']).any isWild = true := by
    rw [List.any_append]
    exact Bool.or_true _
  have hpos := List.length_pos_iff.mpr hq
  rw [extractLevelPrefix_wild hwild hlen (by simp [hpart]), hpart, List.length_append,
    if_neg (by rw [List.length_singleton]; omega), List.dropLast_concat, List.append_assoc]
  exact Prod.ext rfl (if_pos rfl)

/-! ## The search -/

def under (level name : List Char) : Bool :=
  level.isEmpty || (level ++ ['.']).isPrefixOf name

/-- The catalog and what the C library finds in it and on the volumes. A pattern of `__listds` starts
with characters that stand for themselves, and `**` matches whatever a name goes on with. -/
structure DsCatalog where
  names : List (List Char)
  isMatch : List Char → List Char → Bool
  listds : List Char → Option (List Char) → List (List Char)
  /-- The volume of a cataloged name. -/
  locate : List Char → Option (List Char)
  /-- The volume has a DSCB of the name. -/
  dscbdv : List Char → List Char → Bool
  /-- There is storage for another entry. -/
  calloc : Bool
  qualified : ∀ name ∈ names, name.head? ≠ some '.'
  literal : ∀ p pat name, (∀ c ∈ p, isWild c = false) → isMatch (p ++ pat) name = true → p <+: name
  stars : ∀ p rest, (∀ c ∈ p, isWild c = false) → isMatch (p ++ ['*', '*']) (p ++ rest) = true
  mem_listds : ∀ level filter name, name ∈ listds level filter ↔
    name ∈ names ∧ under level name = true ∧ ∀ f ∈ filter, isMatch f name = true

/-- The exact-name lookup brings an entry. -/
def DsCatalog.exact (cat : DsCatalog) (name : List Char) : Bool :=
  match cat.locate name with
  | some vol => cat.dscbdv name vol && cat.calloc
  | none => false

/-- The folded `dslevel`; `none` if it is refused. -/
def foldDslevel (value : Option (List Char)) : Option (Option (List Char)) :=
  match value with
  | none => some none
  | some [] => some (some [])
  | some value => (normalizeDsn (some value) (MAX_DATASET_NAME + 1)).map some

/-- The names of a listing. -/
def datasetSearch (cat : DsCatalog) (value : Option (List Char)) : Option (List (List Char)) :=
  (foldDslevel value).map fun dslevel =>
    let (level, filter) := extractLevelPrefix dslevel (MAX_DATASET_NAME + 1)
    let dslist := cat.listds level filter
    match dslevel with
    | none => dslist
    | some name =>
      if filter = none ∧ '.' ∈ name ∧ '*' ∉ name ∧ '?' ∉ name ∧ cat.exact name = true then
        dslist ++ [name]
      else dslist

/-- The names that a `dslevel` asks for: those that match a pattern, or the name and all under it. -/
def DsCatalog.Selects (cat : DsCatalog) (dslevel name : List Char) : Prop :=
  if dslevel.any isWild then cat.isMatch dslevel name = true
  else name = dslevel ∨ under dslevel name = true

theorem under_eq_true_iff {level name : List Char} :
    under level name = true ↔ level = [] ∨ level ++ ['.'] <+: name := by
  rw [under, Bool.or_eq_true, List.isEmpty_iff, List.isPrefixOf_iff_prefix]

/-- No name starts with a dot. -/
theorem DsCatalog.not_dot_prefix (cat : DsCatalog) {name p : List Char} (hname : name ∈ cat.names) :
    ¬ '.' :: p <+: name := by
  rintro ⟨rest, rfl⟩
  exact cat.qualified _ hname rfl

section

variable (cat : DsCatalog) {dslevel name : List Char}

/-- A pattern with a clean first qualifier has a part before the one with the wildcard. -/
theorem cleanPart_ne_nil (hwild : dslevel.any isWild = true)
    (hfirst : ∀ c ∈ dslevel.takeWhile (· != '.'), isWild c = false) : cleanPart dslevel ≠ [] := by
  intro hnil
  obtain ⟨w, hdslevel, hw⟩ := cleanPart_wild hwild
  rw [hnil, List.nil_append] at hdslevel
  subst hdslevel
  rw [List.any_eq_true] at hw
  obtain ⟨c, hc, hcw⟩ := hw
  rw [hfirst c hc] at hcw
  cases hcw

/-- The level is the clean part without its dot, or the part is only a dot. -/
theorem level_wild (hwild : dslevel.any isWild = true) (hlen : dslevel.length ≤ MAX_DATASET_NAME)
    (hclean : cleanPart dslevel ≠ []) :
    (cleanPart dslevel = ['.'] ∧
        (extractLevelPrefix (some dslevel) (MAX_DATASET_NAME + 1)).1 = dslevel) ∨
      ((extractLevelPrefix (some dslevel) (MAX_DATASET_NAME + 1)).1 ≠ [] ∧
        (extractLevelPrefix (some dslevel) (MAX_DATASET_NAME + 1)).1 ++ ['.'] = cleanPart dslevel) := by
  have hlast := cleanPart_getLast dslevel hclean
  rw [extractLevelPrefix_wild hwild (Nat.lt_succ_of_le hlen) hclean]
  dsimp only
  split
  · next hone =>
    left
    obtain ⟨c, hc⟩ := List.length_eq_one_iff.mp hone
    rw [hc] at hlast ⊢
    exact ⟨congrArg ([·]) (Option.some.inj hlast), rfl⟩
  · next hone =>
    right
    rw [List.getLast?_eq_some_getLast hclean, Option.some.injEq] at hlast
    have hpos := List.length_pos_iff.mpr hclean
    constructor
    · rw [ne_eq, ← List.length_eq_zero_iff, List.length_dropLast]
      omega
    · rw [← hlast, List.dropLast_append_getLast]

/-- A name that is asked for is under the level if it is longer. -/
theorem under_of_selects (hlen : dslevel.length ≤ MAX_DATASET_NAME)
    (hfirst : ∀ c ∈ dslevel.takeWhile (· != '.'), isWild c = false) (hname : name ∈ cat.names)
    (hlong : (extractLevelPrefix (some dslevel) (MAX_DATASET_NAME + 1)).1.length < name.length)
    (hsel : cat.Selects dslevel name) :
    under (extractLevelPrefix (some dslevel) (MAX_DATASET_NAME + 1)).1 name = true := by
  rw [DsCatalog.Selects] at hsel
  cases hwild : dslevel.any isWild with
  | false =>
    rw [hwild, if_neg nofun] at hsel
    rw [extractLevelPrefix_plain hwild (Nat.lt_succ_of_le hlen)] at hlong ⊢
    rcases hsel with rfl | hsel
    · exact absurd hlong (Nat.lt_irrefl _)
    · exact hsel
  | true =>
    rw [hwild, if_pos rfl] at hsel
    have hclean := cleanPart_ne_nil hwild hfirst
    obtain ⟨w, hdslevel, -⟩ := cleanPart_wild hwild
    have hprefix : cleanPart dslevel <+: name := by
      refine cat.literal _ w name (fun c => cleanPart_clean c) ?_
      rwa [← hdslevel]
    rcases level_wild hwild hlen hclean with ⟨hdot, -⟩ | ⟨-, hlevel⟩
    · rw [hdot] at hprefix
      exact absurd hprefix (cat.not_dot_prefix hname)
    · rw [under_eq_true_iff, hlevel]
      exact Or.inr hprefix

/-- Without a filter all names under the level are asked for. -/
theorem selects_of_under (hlen : dslevel.length ≤ MAX_DATASET_NAME)
    (hfirst : ∀ c ∈ dslevel.takeWhile (· != '.'), isWild c = false) (hname : name ∈ cat.names)
    (hfilter : (extractLevelPrefix (some dslevel) (MAX_DATASET_NAME + 1)).2 = none)
    (hunder : under (extractLevelPrefix (some dslevel) (MAX_DATASET_NAME + 1)).1 name = true) :
    cat.Selects dslevel name := by
  rw [DsCatalog.Selects]
  cases hwild : dslevel.any isWild with
  | false =>
    rw [if_neg nofun]
    rw [extractLevelPrefix_plain hwild (Nat.lt_succ_of_le hlen)] at hunder
    exact Or.inr hunder
  | true =>
    rw [if_pos rfl]
    have hclean := cleanPart_ne_nil hwild hfirst
    have hstars : dslevel = cleanPart dslevel ++ ['*', '*'] := by
      rw [extractLevelPrefix_wild hwild (Nat.lt_succ_of_le hlen) hclean] at hfilter
      by_contra hne
      rw [if_neg hne] at hfilter
      cases hfilter
    obtain ⟨rest, rfl⟩ : cleanPart dslevel <+: name := by
      rcases level_wild hwild hlen hclean with ⟨hdot, hlevel⟩ | ⟨hne, hlevel⟩
      · rw [hlevel, under_eq_true_iff, hstars, hdot] at hunder
        exact absurd (hunder.resolve_left nofun) (cat.not_dot_prefix hname)
      · rw [under_eq_true_iff, hlevel] at hunder
        exact hunder.resolve_left hne
    have hmatch := cat.stars (cleanPart dslevel) rest fun c => cleanPart_clean c
    rwa [← hstars] at hmatch

end

/-! ## The listing -/

theorem isWild_toupper (c : Char) : isWild (HostChar.toupper c) = isWild c := by
  have hchar : ∀ d : Char, d.toNat < 65 → (HostChar.toupper c = d ↔ c = d) := by
    intro d hd
    rw [← Char.toNat_inj, ← Char.toNat_inj]
    show c.toUpper.toNat = _ ↔ _
    rw [toNat_toUpper]
    split
    · omega
    · rfl
  have hstar := hchar '*' (by decide)
  have hmark := hchar '?' (by decide)
  rw [Bool.eq_iff_iff]
  simp [isWild, hstar, hmark]

/-- A value that does not end in a blank is folded as it is. -/
theorem foldDslevel_eq {value : List Char} (hne : value ≠ []) (hlast : value.getLast? ≠ some ' ')
    (hlen : value.length ≤ MAX_DATASET_NAME) :
    foldDslevel (some value) = some (some (value.map HostChar.toupper)) := by
  have hunpadded : unpadded value = value := by
    refine List.rdropWhile_eq_self_iff.mpr fun hl hblank => ?_
    rw [List.getLast?_eq_some_getLast hl] at hlast
    exact hlast (congrArg some (beq_iff_eq.mp hblank))
  have hname : normalizeDsn (some value) (MAX_DATASET_NAME + 1) =
      some (value.map HostChar.toupper) := by
    refine normalizeDsn_eq_some_iff.mpr ⟨value, rfl, ?_, ?_, ?_⟩
    · rw [folded, hunpadded]
    · rw [folded, hunpadded, ne_eq, List.map_eq_nil_iff]
      exact hne
    · rw [length_folded, hunpadded]
      exact Nat.lt_succ_of_le hlen
  rw [foldDslevel]
  · rw [hname]
    rfl
  · exact hne

theorem folded_clean {q : List Char} (hclean : ∀ c ∈ q, isWild c = false) :
    ∀ c ∈ q.map HostChar.toupper, isWild c = false := by
  intro c hc
  obtain ⟨d, hd, rfl⟩ := List.mem_map.mp hc
  rw [isWild_toupper]
  exact hclean d hd

section

variable (cat : DsCatalog) {q : List Char} (hdot : '.' ∈ q) (hclean : ∀ c ∈ q, isWild c = false)
include hdot hclean

/-- The listing of a name without wildcards: what is under it, and itself. -/
theorem datasetSearch_name (hlast : q.getLast? ≠ some ' ') (hlen : q.length ≤ MAX_DATASET_NAME) :
    datasetSearch cat (some q) =
      some (cat.listds (q.map HostChar.toupper) none ++
        if cat.exact (q.map HostChar.toupper) = true then [q.map HostChar.toupper] else []) := by
  have hfold := foldDslevel_eq (List.ne_nil_of_mem hdot) hlast hlen
  have hplain := folded_clean hclean
  have hany : (q.map HostChar.toupper).any isWild = false :=
    List.any_eq_false.mpr fun c hc => Bool.eq_false_iff.mp (hplain c hc)
  have hdot' : '.' ∈ q.map HostChar.toupper := List.mem_map.mpr ⟨'.', hdot, rfl⟩
  have hstar : '*' ∉ q.map HostChar.toupper := fun h => nomatch hplain _ h
  have hmark : '?' ∉ q.map HostChar.toupper := fun h => nomatch hplain _ h
  rw [datasetSearch, hfold, Option.map_some,
    extractLevelPrefix_plain hany (by rw [List.length_map]; exact Nat.lt_succ_of_le hlen)]
  simp only [hdot', hstar, hmark, not_false_eq_true, true_and]
  split
  · rfl
  · rw [List.append_nil]

/-- The listing of all below the name is what is under it. -/
theorem datasetSearch_stars (hlen : (q ++ ['.', '*', '*']).length ≤ MAX_DATASET_NAME) :
    datasetSearch cat (some (q ++ ['.', '*', '*'])) =
      some (cat.listds (q.map HostChar.toupper) none) := by
  have hne : q ++ ['.', '*', '*'] ≠ [] := List.append_ne_nil_of_right_ne_nil _ nofun
  have hlast : (q ++ ['.', '*', '*']).getLast? ≠ some ' ' := by
    rw [List.getLast?_append_of_ne_nil _ (List.cons_ne_nil _ _)]
    decide
  have hmap : (q ++ ['.', '*', '*']).map HostChar.toupper =
      q.map HostChar.toupper ++ ['.', '*', '*'] := by
    rw [List.map_append]
    congr 1
  have hstar : '*' ∈ q.map HostChar.toupper ++ ['.', '*', '*'] := List.mem_append_right _ (by simp)
  have hq : q.map HostChar.toupper ≠ [] := by
    rw [ne_eq, List.map_eq_nil_iff]
    exact List.ne_nil_of_mem hdot
  rw [datasetSearch, foldDslevel_eq hne hlast hlen, Option.map_some, hmap,
    extractLevelPrefix_stars hq (folded_clean hclean)
      (by rw [List.length_append] at hlen ⊢; rw [List.length_map]; exact Nat.lt_succ_of_le hlen)]
  simp only [hstar, not_true_eq_false, false_and, and_false, if_false]

end

/-- No name is strictly under itself. -/
theorem DsCatalog.not_mem_listds_self (cat : DsCatalog) {name : List Char} (hne : name ≠ [])
    (filter : Option (List Char)) : name ∉ cat.listds name filter := by
  intro hmem
  have hunder := ((cat.mem_listds _ _ _).mp hmem).2.1
  rw [under_eq_true_iff] at hunder
  have hlen := (hunder.resolve_left hne).length_le
  rw [List.length_append, List.length_singleton] at hlen
  omega

/-- **Level and filter.** A name that a `dslevel` with a clean first qualifier asks for, and that is
longer than its level, is under the level, and without a filter all names under the level are asked
for. The listing of all below a name of several qualifiers is the one of the name exactly if the name
itself is not found. -/
theorem datasetSearch_split (cat : DsCatalog) :
    (∀ dslevel : List Char, dslevel.length ≤ MAX_DATASET_NAME →
      (∀ c ∈ dslevel.takeWhile (· != '.'), isWild c = false) →
        let split := extractLevelPrefix (some dslevel) (MAX_DATASET_NAME + 1)
        (∀ name ∈ cat.names, split.1.length < name.length → cat.Selects dslevel name →
          under split.1 name = true) ∧
        (split.2 = none → ∀ name ∈ cat.names, under split.1 name = true →
          cat.Selects dslevel name)) ∧
      ∀ q : List Char, '.' ∈ q → (∀ c ∈ q, isWild c = false) → q.getLast? ≠ some ' ' →
        (q ++ ['.', '*', '*']).length ≤ MAX_DATASET_NAME →
          ∃ below found, datasetSearch cat (some (q ++ ['.', '*', '*'])) = some below ∧
            datasetSearch cat (some q) = some found ∧
            ((∀ name, name ∈ below ↔ name ∈ found) ↔ cat.exact (q.map HostChar.toupper) = false) := by
  constructor
  · intro dslevel hlen hfirst
    constructor
    · intro name hname hlong hsel
      exact under_of_selects cat hlen hfirst hname hlong hsel
    · intro hfilter name hname hunder
      exact selects_of_under cat hlen hfirst hname hfilter hunder
  · intro q hdot hclean hlast hlen
    have hq : q.length ≤ MAX_DATASET_NAME := by
      rw [List.length_append] at hlen
      omega
    refine ⟨_, _, datasetSearch_stars cat hdot hclean hlen,
      datasetSearch_name cat hdot hclean hlast hq, ?_⟩
    cases hexact : cat.exact (q.map HostChar.toupper) with
    | false => simp
    | true =>
      refine iff_of_false (fun h => ?_) nofun
      have hself : q.map HostChar.toupper ∈ cat.listds (q.map HostChar.toupper) none :=
        (h _).mpr (List.mem_append_right _ List.mem_cons_self)
      refine cat.not_mem_listds_self ?_ none hself
      rw [ne_eq, List.map_eq_nil_iff]
      exact List.ne_nil_of_mem hdot

/-! ## A catalog -/

/-- The pattern language of the library. -/
def wildToken (c : Char) : Glob.Token Char :=
  if c = '*' then .any else if c = '?' then .one else .lit c

theorem wildToken_clean {p : List Char} (h : ∀ c ∈ p, isWild c = false) :
    p.map wildToken = p.map .lit := by
  refine List.map_congr_left fun c hc => ?_
  have hplain := h c hc
  simp only [isWild, Bool.or_eq_false_iff, beq_eq_false_iff_ne] at hplain
  rw [wildToken, if_neg hplain.1, if_neg hplain.2]

/-- A catalog with the data sets of one volume. -/
def catalogOf (names : List (List Char)) (hnames : ∀ name ∈ names, name.head? ≠ some '.') :
    DsCatalog where
  names := names
  isMatch pat name := decide (Glob.Matches (pat.map wildToken) name)
  listds level filter := names.filter fun name => under level name &&
    filter.all fun pat => decide (Glob.Matches (pat.map wildToken) name)
  locate name := if name ∈ names then some ['V'] else none
  dscbdv name _ := name ∈ names
  calloc := true
  qualified := hnames
  literal p pat name hp h := by
    rw [decide_eq_true_eq, List.map_append, wildToken_clean hp] at h
    exact h.lit_prefix
  stars p rest hp := by
    rw [decide_eq_true_eq, List.map_append, wildToken_clean hp]
    exact (Glob.Matches.any [] (Glob.matches_any rest)).lit
  mem_listds level filter name := by
    rw [List.mem_filter, Bool.and_eq_true]
    cases filter <;> simp

/-- `A.B` and a data set under it. -/
def smallCatalog : DsCatalog :=
  catalogOf [['A', '.', 'B'], ['A', '.', 'B', '.', 'C']] (by decide)

theorem datasetSearch_split_small :
    (under ['A'] ['A', '.', 'B'] = true ∧ smallCatalog.Selects ['A', '.', 'B', '*'] ['A', '.', 'B']) ∧
      ∃ below found, datasetSearch smallCatalog (some ['A', '.', 'C', '.', '*', '*']) = some below ∧
        datasetSearch smallCatalog (some ['A', '.', 'C']) = some found ∧
        ((∀ name, name ∈ below ↔ name ∈ found) ↔ smallCatalog.exact ['A', '.', 'C'] = false) := by
  have h := datasetSearch_split smallCatalog
  have hsel : smallCatalog.Selects ['A', '.', 'B', '*'] ['A', '.', 'B'] := by
    rw [DsCatalog.Selects, if_pos (by decide)]
    decide +kernel
  have hlevel : (extractLevelPrefix (some ['A', '.', 'B', '*']) (MAX_DATASET_NAME + 1)).1 = ['A'] := by
    decide +kernel
  have hunder := (h.1 ['A', '.', 'B', '*'] (by decide) (by simp [isWild])).1 ['A', '.', 'B']
    (by decide +kernel) (by rw [hlevel]; decide) hsel
  rw [hlevel] at hunder
  exact ⟨⟨hunder, hsel⟩, h.2 ['A', '.', 'C'] (by decide) (by simp [isWild]) (by decide) (by decide)⟩

/-- `A.B` is in its own listing and not in that of `A.B.**`. -/
theorem datasetSearch_self_missing :
    ¬ ∀ (cat : DsCatalog) (q : List Char), '.' ∈ q → (∀ c ∈ q, isWild c = false) →
      q.getLast? ≠ some ' ' → (q ++ ['.', '*', '*']).length ≤ MAX_DATASET_NAME →
        ∃ below found, datasetSearch cat (some (q ++ ['.', '*', '*'])) = some below ∧
          datasetSearch cat (some q) = some found ∧ ∀ name, name ∈ below ↔ name ∈ found := by
  intro h
  obtain ⟨below, found, hbelow, hfound, hsame⟩ :=
    h smallCatalog ['A', '.', 'B'] (by decide) (by simp [isWild]) (by decide) (by decide)
  have hbelow' : datasetSearch smallCatalog (some (['A', '.', 'B'] ++ ['.', '*', '*'])) =
      some [['A', '.', 'B', '.', 'C']] := by decide +kernel
  have hfound' : datasetSearch smallCatalog (some ['A', '.', 'B']) =
      some [['A', '.', 'B', '.', 'C'], ['A', '.', 'B']] := by decide +kernel
  obtain rfl := Option.some.inj (hbelow.symm.trans hbelow')
  obtain rfl := Option.some.inj (hfound.symm.trans hfound')
  have hself : ['A', '.', 'B'] ∈ [['A', '.', 'B', '.', 'C']] := (hsame _).mpr (by decide)
  revert hself
  decide

end Mvsmf
