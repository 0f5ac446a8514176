import Mvsmf.Console.Correlate
import Mvsmf.Lib.Stamps

/-!
# Detection of unsolicited messages

An anchor is the second of the newest stamped entry of the table and the number of the matches of
that second. `mtt_detect_since` counts the matches that are newer: those of a later second, and
those of the anchor's second beyond the number. The stamps have no date, so a second is later if it
is less than half a day ahead.
-/

namespace Mvsmf

open CLib Stamps

/-! ## The anchor and the count -/

/-- `MTT_ANCHOR`; no second stands for -1. -/
structure MttAnchor where
  secs : Option Nat
  same : Nat
  deriving DecidableEq

/-- The upper-cased text, as far as `up[200]` goes, contains the keyword. -/
def mttEntryHas (e : MtEntry) (keywordUpper : List Char) : Bool :=
  strstr keywordUpper (cString ((e.line.take 199).map Char.toUpper))

/-- A line that the buffer takes whole has the keyword in it. -/
theorem mttEntryHas_iff {e : MtEntry} {keywordUpper : List Char} (hlen : e.line.length ≤ 199)
    (hnul : '\x00' ∉ e.line.map Char.toUpper) :
    mttEntryHas e keywordUpper = true ↔ keywordUpper <:+: e.line.map Char.toUpper := by
  rw [mttEntryHas, List.take_of_length_le hlen, cString_eq_self_iff.mpr hnul, strstr_iff_infix]

def anchorEntry (keywordUpper : List Char) (a : MttAnchor) (e : MtEntry) : MttAnchor :=
  let a := match mttSecsOfDay e.line with
    | some s => if a.secs = some s then a else ⟨some s, 0⟩
    | none => a
  if a.secs.isSome && mttEntryHas e keywordUpper then { a with same := a.same + 1 } else a

def mttDetectAnchor (snap : Option (List MtEntry)) (keywordUpper : List Char) : Option MttAnchor :=
  snap.map fun arr => arr.foldl (anchorEntry keywordUpper) ⟨none, 0⟩

/-- The message text of an entry, as far as a buffer of `lsz` takes it. -/
def detectText (lsz : Nat) (e : MtEntry) : List Char :=
  let off := if e.line.length > MTT_MSG_OFF then MTT_MSG_OFF else 0
  (rstrip ((e.line.drop off).dropWhile (· == ' '))).take (lsz - 1)

structure SinceWalk where
  cur : Option Nat
  count : Nat
  same : Nat
  latest : List Char

/-- A match that is new. -/
def SinceWalk.detect (w : SinceWalk) (lsz : Nat) (e : MtEntry) : SinceWalk :=
  { w with
    count := w.count + 1
    latest := if lsz = 0 then w.latest else detectText lsz e }

def sinceEntry (keywordUpper : List Char) (anchor : MttAnchor) (lsz : Nat) (w : SinceWalk)
    (e : MtEntry) : SinceWalk :=
  let w := { w with cur := (mttSecsOfDay e.line).or w.cur }
  match w.cur with
  | none => w
  | some cur =>
    if mttEntryHas e keywordUpper then
      match anchor.secs with
      | none => w.detect lsz e
      | some secs =>
        let delta := (cur + 86400 - secs) % 86400
        if delta = 0 then
          let w := { w with same := w.same + 1 }
          if w.same > anchor.same then w.detect lsz e else w
        else if delta < 43200 then w.detect lsz e
        else w
    else w

def sinceWalk (keywordUpper : List Char) (anchor : MttAnchor) (lsz : Nat) (arr : List MtEntry) :
    SinceWalk :=
  arr.foldl (sinceEntry keywordUpper anchor lsz) ⟨none, 0, 0, []⟩

/-- The count, `none` standing for `MTT_SNAP_FAILED`, and the text in `latest`. -/
def mttDetectSince (snap : Option (List MtEntry)) (keywordUpper : List Char) (anchor : MttAnchor)
    (lsz : Nat) : Option Nat × List Char :=
  match snap with
  | none => (none, [])
  | some arr =>
    let w := sinceWalk keywordUpper anchor lsz arr
    (some w.count, w.latest)

/-! ## Entries with the time they were written -/

/-- An entry and the second it was written in, counted from some midnight; a stamp in its line is
the time of day then. -/
structure TimedEntry where
  entry : MtEntry
  time : Nat
  stamp_eq : ∀ s, mttSecsOfDay entry.line = some s → s = time % 86400

namespace TimedEntry

/-- The time of a stamped entry. -/
def own (e : TimedEntry) : Option Nat := (mttSecsOfDay e.entry.line).map fun _ => e.time

def has (keyword : List Char) (e : TimedEntry) : Bool := mttEntryHas e.entry keyword

theorem secsOfDay_eq (e : TimedEntry) :
    mttSecsOfDay e.entry.line = e.own.map (· % 86400) := by
  rw [own]
  cases hs : mttSecsOfDay e.entry.line with
  | none => rfl
  | some s => exact congrArg some (e.stamp_eq s hs)

theorem own_eq_time {e : TimedEntry} {t : Nat} (h : e.own = some t) : t = e.time := by
  rw [own, Option.map_eq_some_iff] at h
  obtain ⟨s, -, rfl⟩ := h
  rfl

end TimedEntry

/-- The snapshot of a table of timed entries. -/
def entriesOf (t : List TimedEntry) : List MtEntry := t.map TimedEntry.entry

/-- The second that is current behind the entries. -/
def lastSecond (t : List TimedEntry) : Option Nat := last TimedEntry.own none t

/-- The matches that go by the second `a`. -/
def tally (keyword : List Char) (a : Nat) (t : List TimedEntry) : Nat :=
  (carried TimedEntry.own none t).countP fun p => p.1 == some a && p.2.has keyword

/-- Every entry is less than half a day away from `a`. -/
def Near (a : Nat) (t : List TimedEntry) : Prop :=
  ∀ e ∈ t, e.time < a + 43200 ∧ a < e.time + 43200

/-- The times do not decrease. -/
def Nondecreasing (t : List TimedEntry) : Prop := t.Pairwise fun e f => e.time ≤ f.time

/-! ## What the walks carry -/

theorem Near.append {a : Nat} {t u : List TimedEntry} (h : Near a (t ++ u)) : Near a t ∧ Near a u :=
  List.forall_mem_append.mp h

/-- The second that is current is one of the table's. -/
theorem lastSecond_mem {t : List TimedEntry} {c : Nat} (h : lastSecond t = some c) :
    ∃ e ∈ t, e.own = some c ∧ e.time = c := by
  rcases last_mem h with hcur | ⟨e, he, hown⟩
  · cases hcur
  · exact ⟨e, he, hown, (TimedEntry.own_eq_time hown).symm⟩

theorem Near.lastSecond {a c : Nat} {t : List TimedEntry} (h : Near a t)
    (hc : lastSecond t = some c) : c < a + 43200 ∧ a < c + 43200 := by
  obtain ⟨e, he, -, rfl⟩ := lastSecond_mem hc
  exact h e he

/-- The second that is current is the latest. -/
theorem le_lastSecond {t : List TimedEntry} (hmono : Nondecreasing t) {f : TimedEntry} (hf : f ∈ t)
    {s : Nat} (hs : f.own = some s) : ∃ c, lastSecond t = some c ∧ s ≤ c := by
  induction t using List.reverseRecOn with
  | nil => cases hf
  | append_singleton t e ih =>
    obtain ⟨hmonot, -, hle⟩ := List.pairwise_append.mp hmono
    rw [lastSecond, last_concat]
    rcases List.mem_append.mp hf with hft | hfe
    · obtain ⟨c, hc, hsc⟩ := ih hmonot hft
      cases hown : e.own with
      | none => exact ⟨c, hc, hsc⟩
      | some u =>
        have hfe := hle f hft e List.mem_cons_self
        rw [← TimedEntry.own_eq_time hs, ← TimedEntry.own_eq_time hown] at hfe
        exact ⟨u, rfl, hfe⟩
    · obtain rfl := List.mem_singleton.mp hfe
      exact ⟨s, by rw [hs, Option.some_or], le_refl s⟩

/-- The time of day that is current in a walk. -/
theorem lastSecond_concat_mod (t : List TimedEntry) (e : TimedEntry) :
    (mttSecsOfDay e.entry.line).or ((lastSecond t).map (· % 86400)) =
      (lastSecond (t ++ [e])).map (· % 86400) := by
  rw [e.secsOfDay_eq, lastSecond, lastSecond, last_concat]
  cases e.own <;> rfl

theorem tally_concat (keyword : List Char) (a : Nat) (t : List TimedEntry) (e : TimedEntry) :
    tally keyword a (t ++ [e]) = tally keyword a t +
      if lastSecond (t ++ [e]) = some a ∧ e.has keyword = true then 1 else 0 := by
  rw [tally, tally, carried_concat, List.countP_append, lastSecond, last_concat,
    List.countP_singleton]
  congr 1
  simp only [Bool.and_eq_true, beq_iff_eq]

/-- No entry goes by a second behind all of them. -/
theorem tally_eq_zero (keyword : List Char) {a : Nat} {t : List TimedEntry}
    (h : ∀ e ∈ t, e.own ≠ some a) : tally keyword a t = 0 := by
  rw [tally, List.countP_eq_zero]
  intro p hp hand
  rw [Bool.and_eq_true, beq_iff_eq] at hand
  rcases carried_mem hp hand.1 with hcur | ⟨e, he, hown⟩
  · cases hcur
  · exact h e he hown

/-- The anchor of a table: the time of day of its last second, with the matches of that second. -/
theorem foldl_anchorEntry (keyword : List Char) {t : List TimedEntry} (hmono : Nondecreasing t)
    {a : Nat} (hnear : Near a t) :
    (entriesOf t).foldl (anchorEntry keyword) ⟨none, 0⟩ =
      ⟨(lastSecond t).map (· % 86400), (lastSecond t).elim 0 fun c => tally keyword c t⟩ := by
  induction t using List.reverseRecOn with
  | nil => rfl
  | append_singleton t e ih =>
    obtain ⟨hmonot, -, hle⟩ := List.pairwise_append.mp hmono
    obtain ⟨hneart, heone⟩ := hnear.append
    have he := heone e List.mem_cons_self
    have hlast : lastSecond (t ++ [e]) = e.own.or (lastSecond t) := last_concat none t e
    rw [entriesOf, List.map_append, List.foldl_append, ← entriesOf, ih hmonot hneart]
    change anchorEntry keyword _ e.entry = _
    rw [anchorEntry, e.secsOfDay_eq]
    cases hown : e.own with
    | none =>
      rw [hown, Option.none_or] at hlast
      rw [hlast]
      cases hc : lastSecond t with
      | none => rfl
      | some c =>
        simp only [Option.map_none, Option.map_some, Option.elim_some, Option.isSome_some,
          Bool.true_and, tally_concat, hlast, hc, true_and, TimedEntry.has]
        split <;> rfl
    | some s =>
      obtain rfl := TimedEntry.own_eq_time hown
      rw [hown, Option.some_or] at hlast
      -- the second is a new one, or the one that was current
      have hsame : (lastSecond t).map (· % 86400) = some (e.time % 86400) ↔
          lastSecond t = some e.time := by
        cases hc : lastSecond t with
        | none => simp
        | some c =>
          have hnc := hneart.lastSecond hc
          simp only [Option.map_some, Option.some.injEq]
          omega
      rw [hlast]
      simp only [Option.map_some, Option.elim_some, hsame, tally_concat, hlast, true_and,
        TimedEntry.has]
      by_cases hc : lastSecond t = some e.time
      · simp only [hc, if_true, Option.map_some, Option.elim_some, Option.isSome_some,
          Bool.true_and]
        split <;> rfl
      · have hzero : tally keyword e.time t = 0 := by
          apply tally_eq_zero
          intro f hf hfown
          obtain ⟨c, hc', hle'⟩ := le_lastSecond hmonot hf hfown
          obtain ⟨g, hg, -, rfl⟩ := lastSecond_mem hc'
          have hge := hle g hg e List.mem_cons_self
          exact hc (hc'.trans (congrArg some (by omega)))
        simp only [hc, if_false, Option.isSome_some, Bool.true_and, hzero]
        split <;> rfl

/-- A table with no second has no stamped entry, and its anchor is the one without a second. -/
theorem own_eq_none {t : List TimedEntry} (h : lastSecond t = none) : ∀ e ∈ t, e.own = none := by
  intro e he
  obtain ⟨t₁, t₂, rfl⟩ := List.append_of_mem he
  cases hown : e.own with
  | none => rfl
  | some s =>
    have hsome : (last TimedEntry.own (e.own.or (lastSecond t₁)) t₂).isSome := by
      apply last_isSome
      rw [hown]
      rfl
    rw [lastSecond, last_append, last_cons, ← lastSecond] at h
    rw [h] at hsome
    cases hsome

theorem foldl_anchorEntry_unstamped (keyword : List Char) {t : List TimedEntry}
    (h : ∀ e ∈ t, e.own = none) :
    (entriesOf t).foldl (anchorEntry keyword) ⟨none, 0⟩ = ⟨none, 0⟩ := by
  induction t with
  | nil => rfl
  | cons e t ih =>
    rw [List.forall_mem_cons] at h
    have hstep : anchorEntry keyword ⟨none, 0⟩ e.entry = ⟨none, 0⟩ := by
      rw [anchorEntry, e.secsOfDay_eq, h.1]
      rfl
    rw [entriesOf, List.map_cons, List.foldl_cons, hstep]
    exact ih h.2

/-- The entry behind `t` is a match that counts as new against an anchor in the second `a` with
`same` matches. -/
def CountsNew (keyword : List Char) (a same : Nat) (t : List TimedEntry) (e : TimedEntry) : Prop :=
  e.has keyword = true ∧ ∃ c, lastSecond (t ++ [e]) = some c ∧
    (a < c ∨ c = a ∧ same < tally keyword a (t ++ [e]))

instance (keyword : List Char) (a same : Nat) (t : List TimedEntry) (e : TimedEntry) :
    Decidable (CountsNew keyword a same t e) :=
  match h : lastSecond (t ++ [e]) with
  | none => isFalse fun ⟨_, _, hc, _⟩ => nomatch h.symm.trans hc
  | some c => decidable_of_iff
      (e.has keyword = true ∧ (a < c ∨ c = a ∧ same < tally keyword a (t ++ [e]))) (by
        simp only [CountsNew, h, Option.some.injEq, exists_eq_left'])

theorem sinceWalk_entriesOf_concat (keyword : List Char) (anchor : MttAnchor) (lsz : Nat)
    (t : List TimedEntry) (e : TimedEntry) :
    sinceWalk keyword anchor lsz (entriesOf (t ++ [e])) =
      sinceEntry keyword anchor lsz (sinceWalk keyword anchor lsz (entriesOf t)) e.entry := by
  rw [sinceWalk, entriesOf, List.map_append, List.foldl_append]
  rfl

section Since

variable (keyword : List Char) {a : Nat} (same lsz : Nat)

/-- One more entry, with the current second and the number of matches of the anchor's second that
the walk has so far. -/
theorem sinceEntry_timed (w : SinceWalk) {t : List TimedEntry} {e : TimedEntry}
    (hnear : Near a (t ++ [e])) (hcur : w.cur = (lastSecond t).map (· % 86400))
    (hsame : w.same = tally keyword a t) :
    sinceEntry keyword ⟨some (a % 86400), same⟩ lsz w e.entry =
      { cur := (lastSecond (t ++ [e])).map (· % 86400)
        same := tally keyword a (t ++ [e])
        count := if CountsNew keyword a same t e then w.count + 1 else w.count
        latest := if CountsNew keyword a same t e ∧ lsz ≠ 0 then detectText lsz e.entry
          else w.latest } := by
  rw [sinceEntry, hcur, lastSecond_concat_mod, tally_concat]
  cases hc : lastSecond (t ++ [e]) with
  | none => simp [CountsNew, hc, hsame]
  | some c =>
    have hn := hnear.lastSecond hc
    simp only [CountsNew, hc, Option.some.injEq, exists_eq_left', tally_concat,
      Option.map_some, TimedEntry.has, SinceWalk.detect, hsame]
    cases hhas : mttEntryHas e.entry keyword with
    | false => simp
    | true =>
      rcases Nat.lt_trichotomy c a with hlt | rfl | hgt
      · -- before the anchor: half a day or more ahead of it
        have hdelta : ¬ (c % 86400 + 86400 - a % 86400) % 86400 < 43200 := by omega
        have hne : ¬ (c % 86400 + 86400 - a % 86400) % 86400 = 0 := by omega
        have hca : ¬ c = a := by omega
        simp [hdelta, hne, hca, Nat.lt_asymm hlt]
      · have hdelta : (c % 86400 + 86400 - c % 86400) % 86400 = 0 := by omega
        simp only [hdelta, if_true, lt_irrefl, true_and, and_self, false_or]
        by_cases hs : same < tally keyword c t + 1
        · by_cases hl : lsz = 0 <;> simp [hs, hl]
        · simp [hs]
      · have hdelta : (c % 86400 + 86400 - a % 86400) % 86400 < 43200 := by omega
        have hne : ¬ (c % 86400 + 86400 - a % 86400) % 86400 = 0 := by omega
        have hca : ¬ c = a := by omega
        by_cases hl : lsz = 0 <;> simp [hdelta, hne, hca, hgt, hl]

/-- The walk over the entries: the current second, and the matches of the anchor's second. -/
theorem sinceWalk_timed {t : List TimedEntry} (hnear : Near a t) :
    (sinceWalk keyword ⟨some (a % 86400), same⟩ lsz (entriesOf t)).cur =
        (lastSecond t).map (· % 86400) ∧
      (sinceWalk keyword ⟨some (a % 86400), same⟩ lsz (entriesOf t)).same = tally keyword a t := by
  induction t using List.reverseRecOn with
  | nil => exact ⟨rfl, rfl⟩
  | append_singleton t e ih =>
    obtain ⟨hcur, hsame⟩ := ih hnear.append.1
    rw [sinceWalk_entriesOf_concat, sinceEntry_timed keyword same lsz _ hnear hcur hsame]
    exact ⟨rfl, rfl⟩

/-- One more entry in the table: it is counted, and its text recorded, exactly if it counts as
new. -/
theorem sinceWalk_concat {t : List TimedEntry} {e : TimedEntry} (hnear : Near a (t ++ [e])) :
    let r := sinceWalk keyword ⟨some (a % 86400), same⟩ lsz (entriesOf t)
    let r' := sinceWalk keyword ⟨some (a % 86400), same⟩ lsz (entriesOf (t ++ [e]))
    r'.count = (if CountsNew keyword a same t e then r.count + 1 else r.count) ∧
      r'.latest = if CountsNew keyword a same t e ∧ lsz ≠ 0 then detectText lsz e.entry
        else r.latest := by
  intro r r'
  obtain ⟨hcur, hsame⟩ : r.cur = _ ∧ r.same = _ := sinceWalk_timed keyword same lsz hnear.append.1
  have hr' : r' = sinceEntry keyword _ lsz r e.entry := sinceWalk_entriesOf_concat keyword _ lsz t e
  rw [hr', sinceEntry_timed keyword same lsz r hnear hcur hsame]
  exact ⟨rfl, rfl⟩

end Since

/-! ## Exactness -/

theorem tally_le_append (keyword : List Char) (a : Nat) (t u : List TimedEntry) :
    tally keyword a t ≤ tally keyword a (t ++ u) := by
  rw [tally, tally, carried_append, List.countP_append]
  exact Nat.le_add_right _ _

theorem tally_le_append_left (keyword : List Char) (a : Nat) (t u : List TimedEntry) :
    tally keyword a u ≤ tally keyword a (t ++ u) := by
  rw [tally, tally, carried_append, List.countP_append]
  apply Nat.le_add_left_of_le
  exact countP_carried_none_le (fun _ => rfl) _ u

/-- Entries in front that go by other seconds do not change the number of matches. -/
theorem tally_append_left {keyword : List Char} {a : Nat} {t : List TimedEntry}
    (h : ∀ e ∈ t, e.own ≠ some a) (u : List TimedEntry) :
    tally keyword a (t ++ u) = tally keyword a u := by
  have hlast : lastSecond t ≠ some a := by
    intro hl
    obtain ⟨e, he, hown, -⟩ := lastSecond_mem hl
    exact h e he hown
  have hzero := tally_eq_zero keyword h
  rw [tally] at hzero
  rw [tally, carried_append, List.countP_append, hzero, Nat.zero_add, tally]
  apply countP_carried
  · intro e
    rfl
  · intro e
    rw [Bool.and_eq_false_iff]
    left
    exact beq_eq_false_iff_ne.mpr hlast

/-- A second that is none of the front's is the last one of the rest, if it is the last one. -/
theorem lastSecond_append_left {a : Nat} {t u : List TimedEntry} (h : ∀ e ∈ t, e.own ≠ some a)
    (hlast : lastSecond (t ++ u) = some a) : lastSecond u = some a := by
  rw [lastSecond, last_append, last_eq_or, ← lastSecond, ← lastSecond] at hlast
  cases hu : lastSecond u with
  | some c =>
    rw [hu] at hlast
    exact hlast
  | none =>
    rw [hu, Option.none_or] at hlast
    obtain ⟨e, he, hown, -⟩ := lastSecond_mem hlast
    exact absurd hown (h e he)

section Exact

variable {keyword : List Char} {a : Nat} {kept : List TimedEntry}

/-- The entries that the anchor's snapshot had are not new. -/
theorem not_countsNew {same : Nat} {x t y : List TimedEntry} {e : TimedEntry}
    (hmono : Nondecreasing (x ++ (t ++ [e]) ++ y))
    (hlast : lastSecond (x ++ (t ++ [e]) ++ y) = some a)
    (hsame : tally keyword a (x ++ (t ++ [e]) ++ y) ≤ same) : ¬ CountsNew keyword a same t e := by
  rintro ⟨-, c, hc, hnew⟩
  rcases hnew with hlt | ⟨rfl, hlt⟩
  · obtain ⟨f, hf, hown, rfl⟩ := lastSecond_mem hc
    have hmem : f ∈ x ++ (t ++ [e]) ++ y := List.mem_append_left y (List.mem_append_right x hf)
    obtain ⟨d, hd, hle⟩ := le_lastSecond hmono hmem hown
    rw [hlast] at hd
    cases hd
    omega
  · have hleft := tally_le_append_left keyword c x (t ++ [e])
    have hright := tally_le_append keyword c (x ++ (t ++ [e])) y
    omega

/-- The matches behind them are. -/
theorem countsNew_iff {t : List TimedEntry} {e : TimedEntry}
    (hmono : Nondecreasing (kept ++ t ++ [e])) (hlast : lastSecond kept = some a) :
    CountsNew keyword a (tally keyword a kept) (kept ++ t) e ↔ e.has keyword = true := by
  constructor
  · exact fun h => h.1
  · intro hhas
    obtain ⟨f, hf, hown, -⟩ := lastSecond_mem hlast
    obtain ⟨c, hc, hle⟩ := le_lastSecond hmono (by simp [hf]) hown
    refine ⟨hhas, c, hc, ?_⟩
    rcases Nat.lt_or_eq_of_le hle with hlt | rfl
    · exact Or.inl hlt
    · right
      refine ⟨rfl, ?_⟩
      rw [tally_concat, if_pos ⟨hc, hhas⟩]
      exact Nat.lt_succ_of_le (tally_le_append keyword a kept t)

/-- The table as it was at the anchor, or what is left of it, has nothing new. -/
theorem sinceWalk_kept {same lsz : Nat} {t u : List TimedEntry} (hmono : Nondecreasing (t ++ u))
    (hnear : Near a t) (hlast : lastSecond (t ++ u) = some a)
    (hsame : tally keyword a (t ++ u) ≤ same) :
    (sinceWalk keyword ⟨some (a % 86400), same⟩ lsz (entriesOf t)).count = 0 ∧
      (sinceWalk keyword ⟨some (a % 86400), same⟩ lsz (entriesOf t)).latest = [] := by
  induction t using List.reverseRecOn generalizing u with
  | nil => exact ⟨rfl, rfl⟩
  | append_singleton t e ih =>
    have hold : ¬ CountsNew keyword a same t e := not_countsNew (x := []) hmono hlast hsame
    rw [List.append_assoc, List.singleton_append] at hmono hlast hsame
    obtain ⟨hcount, hlatest⟩ := sinceWalk_concat keyword same lsz hnear
    obtain ⟨ihcount, ihlatest⟩ := ih hmono hnear.append.1 hlast hsame
    rw [hcount, hlatest, if_neg hold, if_neg fun h => hold h.1]
    exact ⟨ihcount, ihlatest⟩

/-- Behind it the walk counts the matches and keeps the text of the last. -/
theorem sinceWalk_new (keyword : List Char) (lsz : Nat) {new : List TimedEntry}
    (hmono : Nondecreasing (kept ++ new)) (hnear : Near a (kept ++ new)) (hlast : lastSecond kept = some a) :
    let r := sinceWalk keyword ⟨some (a % 86400), tally keyword a kept⟩ lsz
      (entriesOf (kept ++ new))
    r.count = new.countP (·.has keyword) ∧
      r.latest = ((new.filter (·.has keyword)).getLast?.map fun e => detectText lsz e.entry).getD
        [] := by
  induction new using List.reverseRecOn with
  | nil =>
    rw [List.append_nil] at hmono hnear ⊢
    have hlast' : lastSecond (kept ++ []) = some a := by rwa [List.append_nil]
    have hmono' : Nondecreasing (kept ++ []) := by rwa [List.append_nil]
    exact sinceWalk_kept hmono' hnear hlast' (by rw [List.append_nil])
  | append_singleton t e ih =>
    rw [← List.append_assoc] at hmono hnear ⊢
    have hmonot := (List.pairwise_append.mp hmono).1
    obtain ⟨hcount, hlatest⟩ := sinceWalk_concat keyword (tally keyword a kept) lsz hnear
    obtain ⟨ihcount, ihlatest⟩ := ih hmonot hnear.append.1
    intro r
    rw [hcount, hlatest, ihcount, ihlatest]
    simp only [countsNew_iff hmono hlast, List.countP_append, List.filter_append]
    cases hhas : e.has keyword with
    | false => simp [hhas]
    | true =>
      refine ⟨by simp [hhas], ?_⟩
      by_cases hl : lsz = 0
      · subst hl
        have hnil : ∀ o : Option TimedEntry,
            (o.map fun e => detectText 0 e.entry).getD [] = [] := by
          intro o
          cases o <;> rfl
        rw [if_neg (by simp), hnil, hnil]
      · simp [hhas, hl]

end Exact

/-- An entry with a line. -/
def lineEntry (line : List Char) : MtEntry where
  mtentlen := line.length
  mtentdat := line
  covers := by
    simp only [mttLen]
    split
    · exact Nat.zero_le _
    · split <;> omega

def startedMsg (hms : String) : MtEntry :=
  lineEntry ("0000  ".toList ++ hms.toList ++ " STC  320  IEF403I A - STARTED".toList)

def startedAt37 : TimedEntry where
  entry := startedMsg "0.00.37"
  time := 37
  stamp_eq := (by decide +kernel : ∀ s ∈ mttSecsOfDay (startedMsg "0.00.37").line, s = 37 % 86400)

def startedAt38 : TimedEntry where
  entry := startedMsg "0.00.38"
  time := 38
  stamp_eq := (by decide +kernel : ∀ s ∈ mttSecsOfDay (startedMsg "0.00.38").line, s = 38 % 86400)

/-- A line without a stamp. -/
def continued : TimedEntry where
  entry := lineEntry "                        SEE IEF403I".toList
  time := 38
  stamp_eq := (by decide +kernel :
    ∀ s ∈ mttSecsOfDay (lineEntry "                        SEE IEF403I".toList).line,
      s = 38 % 86400)

end Mvsmf
