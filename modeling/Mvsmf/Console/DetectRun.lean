import Mvsmf.Console.Detect
import Mvsmf.Lib.System

/-!
# The anchor of a request, between other tasks

A request that wants a detection hands its command to SVC 34 and takes the anchor behind that, from
a copy of the table. Other tasks write all the time, and old entries leave the table. What a match
is worth depends on where it falls: one that is written between the two steps goes into the anchor's
count and is never new.
-/

namespace Mvsmf

open Stamps

/-! ## The steps -/

/-- Where the request is. `handed` is the number of entries written when SVC 34 had the command;
an armed detection has the entries from `first` to `seen` in its anchor. -/
inductive DetectPhase
  | idle
  | issued (handed : Nat)
  | armed (handed first seen : Nat) (base : MttAnchor)
  | failed

/-- Every entry that was written, oldest first, and how many of them have left the table. -/
structure DetectState where
  log : List TimedEntry
  gone : Nat
  phase : DetectPhase

def DetectState.table (s : DetectState) : List TimedEntry := s.log.drop s.gone

/-- The other tasks write and push entries out; the request issues its command, then takes the
anchor, or cannot copy the table and arms nothing. -/
inductive DetectStep (keyword : List Char) : DetectState → DetectState → Prop
  | write (s : DetectState) (e : TimedEntry) : (∀ f ∈ s.log, f.time ≤ e.time) →
      DetectStep keyword s { s with log := s.log ++ [e] }
  | evict (s : DetectState) : s.gone < s.log.length →
      DetectStep keyword s { s with gone := s.gone + 1 }
  | issue (s : DetectState) : s.phase = .idle →
      DetectStep keyword s { s with phase := .issued s.log.length }
  | anchor (s : DetectState) (handed : Nat) (base : MttAnchor) : s.phase = .issued handed →
      mttDetectAnchor (some (entriesOf s.table)) keyword = some base →
      DetectStep keyword s { s with phase := .armed handed s.gone s.log.length base }
  | refuse (s : DetectState) (handed : Nat) : s.phase = .issued handed →
      mttDetectAnchor none keyword = none →
      DetectStep keyword s { s with phase := .failed }

def detectSystem (keyword : List Char) : System DetectState where
  init s := s = ⟨[], 0, .idle⟩
  step := DetectStep keyword

/-- What a phase says of the log. -/
def DetectPhase.Fits (keyword : List Char) (log : List TimedEntry) (gone : Nat) :
    DetectPhase → Prop
  | .idle => True
  | .issued handed => handed ≤ log.length
  | .armed handed first seen base => handed ≤ seen ∧ seen ≤ log.length ∧ first ≤ seen ∧
      first ≤ gone ∧
      mttDetectAnchor (some (entriesOf ((log.take seen).drop first))) keyword = some base
  | .failed => True

structure DetectState.Inv (keyword : List Char) (s : DetectState) : Prop where
  nondecreasing : Nondecreasing s.log
  gone_le : s.gone ≤ s.log.length
  fits : s.phase.Fits keyword s.log s.gone

theorem detectSystem_inv (keyword : List Char) :
    (detectSystem keyword).Invariant (DetectState.Inv keyword) where
  init := by
    rintro s rfl
    exact ⟨List.Pairwise.nil, le_refl 0, trivial⟩
  step := by
    intro s s' hinv hstep
    obtain ⟨hmono, hgone, hfits⟩ := hinv
    cases hstep with
    | write e hle =>
      refine ⟨List.pairwise_append.mpr ⟨hmono, List.pairwise_singleton _ _, ?_⟩, ?_, ?_⟩
      · intro f hf g hg
        obtain rfl := List.mem_singleton.mp hg
        exact hle f hf
      · rw [List.length_append]
        exact Nat.le_add_right_of_le hgone
      · change s.phase.Fits keyword (s.log ++ [e]) s.gone
        cases hp : s.phase with
        | idle => trivial
        | failed => trivial
        | issued handed =>
          rw [hp] at hfits
          exact hfits.trans (by simp)
        | armed handed first seen base =>
          rw [hp] at hfits
          obtain ⟨hhanded, hseen, hfirst, hgone', hbase⟩ := hfits
          refine ⟨hhanded, hseen.trans (by simp), hfirst, hgone', ?_⟩
          rwa [List.take_append_of_le_length hseen]
    | evict hlt =>
      refine ⟨hmono, hlt, ?_⟩
      change s.phase.Fits keyword s.log (s.gone + 1)
      cases hp : s.phase with
      | idle => trivial
      | failed => trivial
      | issued handed =>
        rw [hp] at hfits
        exact hfits
      | armed handed first seen base =>
        rw [hp] at hfits
        obtain ⟨hhanded, hseen, hfirst, hgone', hbase⟩ := hfits
        exact ⟨hhanded, hseen, hfirst, Nat.le_succ_of_le hgone', hbase⟩
    | issue hp => exact ⟨hmono, hgone, le_refl _⟩
    | anchor handed base hp hbase =>
      rw [hp] at hfits
      refine ⟨hmono, hgone, hfits, le_refl _, hgone, le_refl _, ?_⟩
      change mttDetectAnchor (some (entriesOf ((s.log.take s.log.length).drop s.gone))) keyword = _
      rwa [List.take_length]
    | refuse handed hp hbase => exact ⟨hmono, hgone, trivial⟩

/-! ## What a poll counts -/

/-- A poll counts the entry behind `before` as new. -/
def CountedAsNew (keyword : List Char) (base : MttAnchor) (lsz : Nat) (before : List TimedEntry)
    (e : TimedEntry) : Prop :=
  (sinceWalk keyword base lsz (entriesOf (before ++ [e]))).count =
    (sinceWalk keyword base lsz (entriesOf before)).count + 1

section Counted

variable {keyword : List Char} {lsz : Nat} {before : List TimedEntry} {e : TimedEntry}

theorem countedAsNew_iff {a same : Nat} (hnear : Near a (before ++ [e])) :
    CountedAsNew keyword ⟨some (a % 86400), same⟩ lsz before e ↔
      CountsNew keyword a same before e := by
  rw [CountedAsNew, (sinceWalk_concat keyword same lsz hnear).1]
  split
  · next h => exact ⟨fun _ => h, fun _ => rfl⟩
  · next h => exact ⟨fun heq => by omega, fun hnew => absurd hnew h⟩

/-- Without a second in the anchor the walk keeps the current one. -/
theorem sinceWalk_unanchored_cur (keyword : List Char) (same lsz : Nat) (t : List TimedEntry) :
    (sinceWalk keyword ⟨none, same⟩ lsz (entriesOf t)).cur =
      (lastSecond t).map (· % 86400) := by
  induction t using List.reverseRecOn with
  | nil => rfl
  | append_singleton t e ih =>
    rw [sinceWalk_entriesOf_concat, ← lastSecond_concat_mod, ← ih]
    rw [sinceEntry]
    dsimp only
    cases hcur : (mttSecsOfDay e.entry.line).or
        (sinceWalk keyword ⟨none, same⟩ lsz (entriesOf t)).cur with
    | none => rfl
    | some c => cases mttEntryHas e.entry keyword <;> rfl

/-- And every match with a second to go by is new. -/
theorem countedAsNew_unanchored_iff {same : Nat} :
    CountedAsNew keyword ⟨none, same⟩ lsz before e ↔
      e.has keyword = true ∧ ∃ c, lastSecond (before ++ [e]) = some c := by
  rw [CountedAsNew, sinceWalk_entriesOf_concat, sinceEntry, sinceWalk_unanchored_cur,
    lastSecond_concat_mod]
  cases hc : lastSecond (before ++ [e]) with
  | none => simp
  | some c => cases hhas : mttEntryHas e.entry keyword <;> simp [hhas, TimedEntry.has,
      SinceWalk.detect]

end Counted

/-! ## What an anchor leaves to find -/

/-- Every poll counts every match that it finds in the table and that was written after the command
was handed over. -/
def DetectState.Detects (keyword : List Char) (lsz : Nat) (s : DetectState) : Prop :=
  ∀ handed first seen base, s.phase = .armed handed first seen base →
    ∀ before e after, s.table = before ++ e :: after → handed ≤ s.gone + before.length →
      e.has keyword = true → CountedAsNew keyword base lsz before e

/-- Each match that was written after the command was handed over and is in the table was written
behind the anchor's snapshot, has a second to go by there, and if that is the anchor's second, the
table still has the matches of that second that the snapshot had. -/
def DetectState.Reaches (keyword : List Char) (s : DetectState) : Prop :=
  ∀ handed first seen base, s.phase = .armed handed first seen base →
    ∀ before e after, s.table = before ++ e :: after → handed ≤ s.gone + before.length →
      e.has keyword = true →
        seen ≤ s.gone + before.length ∧ ∃ c, lastSecond (before ++ [e]) = some c ∧
          (lastSecond ((s.log.take seen).drop first) = some c →
            tally keyword c ((s.log.take seen).drop first) ≤
              tally keyword c (s.table.take (seen - s.gone)))

/-- The entries that were in the table since the anchor was taken are less than half a day away from
its second. -/
def DetectState.AnchorNear (s : DetectState) : Prop :=
  ∀ handed first seen base, s.phase = .armed handed first seen base →
    ∀ a, lastSecond ((s.log.take seen).drop first) = some a → Near a (s.log.drop first)

/-- Entries of which each match of the second `a` comes beyond `same`: there is none, or what is in
front of them has `same`. -/
theorem tally_of_beyond {keyword : List Char} {a same : Nat} {pre l : List TimedEntry}
    (h : ∀ t f u, l = t ++ f :: u → f.has keyword = true →
      lastSecond (pre ++ t ++ [f]) = some a → same < tally keyword a (pre ++ t ++ [f])) :
    tally keyword a (pre ++ l) = tally keyword a pre ∨ same ≤ tally keyword a pre := by
  induction l using List.reverseRecOn with
  | nil => exact Or.inl (by rw [List.append_nil])
  | append_singleton l f ih =>
    have hl := ih fun t g u hsplit => h t g (u ++ [f]) (by simp [hsplit])
    rcases hl with heq | hle
    · rw [← List.append_assoc, tally_concat, heq]
      split
      · next hf =>
        have hlt := h l f [] rfl hf.2 hf.1
        rw [tally_concat, heq, if_pos hf] at hlt
        exact Or.inr (Nat.le_of_lt_succ hlt)
      · exact Or.inl rfl
    · exact Or.inr hle

section Armed

variable {keyword : List Char} {s : DetectState} {first seen : Nat}

/-- What is left of the anchor's snapshot in the table. -/
def DetectState.left (s : DetectState) (seen : Nat) : List TimedEntry := s.table.take (seen - s.gone)

/-- The anchor's snapshot. -/
def DetectState.snap (s : DetectState) (first seen : Nat) : List TimedEntry :=
  (s.log.take seen).drop first

theorem DetectState.snap_eq (s : DetectState) {first : Nat} (seen : Nat) (hfirst : first ≤ s.gone) :
    ∃ x, s.snap first seen = x ++ s.left seen := by
  refine ⟨(s.snap first seen).take (s.gone - first), ?_⟩
  have hleft : s.left seen = (s.snap first seen).drop (s.gone - first) := by
    rw [left, table, snap, List.drop_drop, ← List.drop_take]
    congr 1
    omega
  rw [hleft, List.take_append_drop]

variable {before after : List TimedEntry} {e : TimedEntry}

/-- An entry of the table that the snapshot had. -/
theorem DetectState.left_of_lt (ht : s.table = before ++ e :: after)
    (hlt : s.gone + before.length < seen) : ∃ y, s.left seen = before ++ [e] ++ y := by
  refine ⟨after.take (seen - s.gone - before.length - 1), ?_⟩
  obtain ⟨k, hk⟩ : ∃ k, seen - s.gone = before.length + (k + 1) :=
    ⟨seen - s.gone - before.length - 1, by omega⟩
  rw [left, ht, hk, List.take_length_add_append, List.take_succ_cons]
  simp

/-- An entry behind it. -/
theorem DetectState.left_of_le (ht : s.table = before ++ e :: after)
    (hle : seen ≤ s.gone + before.length) :
    ∃ l, before = s.left seen ++ l ∧ seen ≤ s.gone + (s.left seen).length := by
  have hk : seen - s.gone ≤ before.length := by omega
  refine ⟨before.drop (seen - s.gone), ?_, ?_⟩
  · rw [left, ht, List.take_append_of_le_length hk, List.take_append_drop]
  · rw [left, ht, List.take_append_of_le_length hk, List.length_take_of_le hk]
    omega

theorem near_snap {a : Nat} (h : Near a (s.log.drop first)) : Near a (s.snap first seen) := by
  intro f hf
  rw [DetectState.snap, List.drop_take] at hf
  exact h f (List.mem_of_mem_take hf)

theorem near_table {a : Nat} (hfirst : first ≤ s.gone) (h : Near a (s.log.drop first))
    (ht : s.table = before ++ e :: after) : Near a (before ++ [e]) := by
  intro f hf
  have hmem : f ∈ s.table := by
    rw [ht, List.append_cons]
    exact List.mem_append_left after hf
  rw [DetectState.table, ← Nat.add_sub_of_le hfirst, ← List.drop_drop] at hmem
  exact h f (List.mem_of_mem_drop hmem)

/-- What an entry behind the snapshot goes by is not before the anchor's second. -/
theorem DetectState.le_of_behind (hmono : Nondecreasing s.log) (hgone : s.gone ≤ s.log.length)
    {a c : Nat}
    (ha : lastSecond (s.snap first seen) = some a) (ht : s.table = before ++ e :: after)
    (hle : seen ≤ s.gone + before.length) (hc : lastSecond (before ++ [e]) = some c) : a ≤ c := by
  have hlog : s.log = s.log.take s.gone ++ (before ++ [e]) ++ after := by
    rw [List.append_assoc, List.append_assoc, List.singleton_append, ← ht, table,
      List.take_append_drop]
  obtain ⟨f, hf, hown, -⟩ := lastSecond_mem ha
  have hhist : s.log.take seen <+: s.log.take s.gone ++ (before ++ [e]) := by
    apply List.prefix_of_prefix_length_le (List.take_prefix seen s.log) ⟨after, hlog.symm⟩
    rw [List.length_append, List.length_take_of_le hgone, List.length_append]
    exact (List.length_take_le seen s.log).trans (by simp; omega)
  have hmem : f ∈ s.log.take s.gone ++ (before ++ [e]) :=
    hhist.subset (List.mem_of_mem_drop hf)
  have hmono' : Nondecreasing (s.log.take s.gone ++ (before ++ [e])) := by
    rw [hlog] at hmono
    exact (List.pairwise_append.mp hmono).1
  obtain ⟨d, hd, hle'⟩ := le_lastSecond hmono' hmem hown
  rw [lastSecond, last_append, last_eq_or, ← lastSecond, ← lastSecond, hc, Option.some_or] at hd
  cases hd
  exact hle'

/-- Without a second in the anchor. -/
theorem countedAsNew_unanchored (lsz : Nat) (hfirst : first ≤ s.gone)
    (hnone : lastSecond (s.snap first seen) = none) (ht : s.table = before ++ e :: after)
    (hhas : e.has keyword = true) :
    CountedAsNew keyword ⟨none, 0⟩ lsz before e ↔
      seen ≤ s.gone + before.length ∧ ∃ c, lastSecond (before ++ [e]) = some c := by
  rw [countedAsNew_unanchored_iff]
  constructor
  · rintro ⟨-, c, hc⟩
    refine ⟨?_, c, hc⟩
    by_contra hlt
    obtain ⟨x, hx⟩ := s.snap_eq seen hfirst
    obtain ⟨y, hy⟩ := DetectState.left_of_lt ht (Nat.lt_of_not_le hlt)
    obtain ⟨f, hf, hown, -⟩ := lastSecond_mem hc
    have hmem : f ∈ s.snap first seen := by
      rw [hx, hy]
      exact List.mem_append_right x (List.mem_append_left y hf)
    rw [own_eq_none hnone f hmem] at hown
    cases hown
  · exact fun h => ⟨hhas, h.2⟩

/-- A match of the snapshot is not new. -/
theorem not_countsNew_of_lt {a : Nat} (hmono : Nondecreasing (s.snap first seen))
    (hfirst : first ≤ s.gone) (ha : lastSecond (s.snap first seen) = some a)
    (ht : s.table = before ++ e :: after) (hlt : s.gone + before.length < seen) :
    ¬ CountsNew keyword a (tally keyword a (s.snap first seen)) before e := by
  obtain ⟨x, hx⟩ := s.snap_eq seen hfirst
  obtain ⟨y, hy⟩ := DetectState.left_of_lt ht hlt
  rw [hy, ← List.append_assoc] at hx
  rw [hx] at hmono ha
  apply not_countsNew hmono ha
  rw [hx]

/-- A match behind the snapshot is new if it has a second to go by and the matches of the anchor's
second are there. -/
theorem countsNew_of_le {a c : Nat} (hmono : Nondecreasing s.log) (hgone : s.gone ≤ s.log.length)
    (ha : lastSecond (s.snap first seen) = some a) (ht : s.table = before ++ e :: after)
    (hle : seen ≤ s.gone + before.length) (hhas : e.has keyword = true)
    (hc : lastSecond (before ++ [e]) = some c)
    (hstill : a = c → tally keyword a (s.snap first seen) ≤ tally keyword a (s.left seen)) :
    CountsNew keyword a (tally keyword a (s.snap first seen)) before e := by
  refine ⟨hhas, c, hc, ?_⟩
  rcases Nat.lt_or_eq_of_le (s.le_of_behind hmono hgone ha ht hle hc) with hlt | rfl
  · exact Or.inl hlt
  · right
    obtain ⟨l, hl, -⟩ := DetectState.left_of_le ht hle
    refine ⟨rfl, ?_⟩
    rw [tally_concat, if_pos ⟨hc, hhas⟩, hl]
    exact Nat.lt_succ_of_le ((hstill rfl).trans (tally_le_append keyword a (s.left seen) l))

/-- Where every match behind the snapshot is new and one goes by the anchor's second, the matches of
the second are there. -/
theorem tally_le_left {a : Nat} (ht : s.table = before ++ e :: after)
    (hle : seen ≤ s.gone + before.length) (hhas : e.has keyword = true)
    (hc : lastSecond (before ++ [e]) = some a)
    (hall : ∀ t f u, s.table = t ++ f :: u → seen ≤ s.gone + t.length → f.has keyword = true →
      CountsNew keyword a (tally keyword a (s.snap first seen)) t f) :
    tally keyword a (s.snap first seen) ≤ tally keyword a (s.left seen) := by
  obtain ⟨l, hl, hlen⟩ := DetectState.left_of_le ht hle
  have hbeyond : ∀ t f u, l ++ [e] = t ++ f :: u → f.has keyword = true →
      lastSecond (s.left seen ++ t ++ [f]) = some a →
      tally keyword a (s.snap first seen) < tally keyword a (s.left seen ++ t ++ [f]) := by
    intro t f u hsplit hf hfa
    have htable : s.table = (s.left seen ++ t) ++ f :: (u ++ after) := by
      have hshift : s.table = s.left seen ++ (l ++ [e]) ++ after := by
        rw [ht, List.append_cons, ← List.append_assoc, ← hl]
      rw [hshift, hsplit]
      simp
    have hbehind : seen ≤ s.gone + (s.left seen ++ t).length := by
      rw [List.length_append]
      omega
    obtain ⟨-, c, hc', hnew⟩ := hall _ f _ htable hbehind hf
    rw [hfa] at hc'
    cases hc'
    rcases hnew with hlt | ⟨-, hlt⟩
    · exact absurd hlt (lt_irrefl _)
    · exact hlt
  rcases tally_of_beyond hbeyond with heq | hdone
  · have hmore := tally_le_append keyword a (s.left seen) l
    rw [← List.append_assoc, ← hl, tally_concat, if_pos ⟨hc, hhas⟩] at heq
    rw [← hl] at hmore
    omega
  · exact hdone

end Armed

/-- **A detection finds every match written after the hand-over** exactly if each is written behind
the anchor's snapshot, has a second to go by in the table, and, in the anchor's second, still has
the counted matches in front of it. -/
theorem detects_iff (keyword : List Char) (lsz : Nat) {s : DetectState}
    (hreach : (detectSystem keyword).Reach s) (hnear : s.AnchorNear) :
    s.Detects keyword lsz ↔ s.Reaches keyword := by
  obtain ⟨hmono, hgone, hfits⟩ := (detectSystem_inv keyword).reach hreach
  rw [DetectState.Detects, DetectState.Reaches]
  refine forall_congr' fun handed => forall_congr' fun first => forall_congr' fun seen =>
    forall_congr' fun base => forall_congr' fun hp => ?_
  rw [hp] at hfits
  obtain ⟨hhanded, -, -, hfirst, hbase⟩ := hfits
  have hbase : some ((entriesOf (s.snap first seen)).foldl (anchorEntry keyword) ⟨none, 0⟩) =
    some base := hbase
  change _ ↔ ∀ before e after, s.table = before ++ e :: after → handed ≤ s.gone + before.length →
    e.has keyword = true → seen ≤ s.gone + before.length ∧ ∃ c, lastSecond (before ++ [e]) = some c ∧
      (lastSecond (s.snap first seen) = some c →
        tally keyword c (s.snap first seen) ≤ tally keyword c (s.left seen))
  cases ha : lastSecond (s.snap first seen) with
  | none =>
    rw [foldl_anchorEntry_unstamped keyword (own_eq_none ha)] at hbase
    cases hbase
    refine forall_congr' fun before => forall_congr' fun e => forall_congr' fun after =>
      forall_congr' fun ht => forall_congr' fun _ => forall_congr' fun hhas => ?_
    rw [countedAsNew_unanchored lsz hfirst ha ht hhas]
    simp
  | some a =>
    have hneara := hnear handed first seen base hp a ha
    have hmono' : Nondecreasing (s.snap first seen) :=
      hmono.sublist ((List.drop_sublist _ _).trans (List.take_sublist _ _))
    rw [foldl_anchorEntry keyword hmono' (near_snap hneara), ha] at hbase
    cases hbase
    have hiff : ∀ {before e after}, s.table = before ++ e :: after →
        (CountedAsNew keyword ⟨some (a % 86400), tally keyword a (s.snap first seen)⟩ lsz before e ↔
          CountsNew keyword a (tally keyword a (s.snap first seen)) before e) :=
      fun ht => countedAsNew_iff (near_table hfirst hneara ht)
    constructor
    · intro hall before e after ht hpos hhas
      have hnew := (hiff ht).mp (hall before e after ht hpos hhas)
      have hle : seen ≤ s.gone + before.length := by
        by_contra hlt
        exact not_countsNew_of_lt hmono' hfirst ha ht (Nat.lt_of_not_le hlt) hnew
      obtain ⟨-, c, hc, -⟩ := hnew
      refine ⟨hle, c, hc, fun hac => ?_⟩
      cases hac
      refine tally_le_left ht hle hhas hc fun t f u ht' hle' hf => ?_
      exact (hiff ht').mp (hall t f u ht' (hhanded.trans hle') hf)
    · intro hall before e after ht hpos hhas
      obtain ⟨hle, c, hc, hstill⟩ := hall before e after ht hpos hhas
      apply (hiff ht).mpr
      refine countsNew_of_le hmono hgone ha ht hle hhas hc fun hac => ?_
      cases hac
      exact hstill rfl

/-! ## A match in the gap -/

/-- The command was handed over with an empty table, a match was written, and the anchor taken. -/
def gapState : DetectState :=
  ⟨[startedAt38], 0, .armed 0 0 1 ⟨some 38, 1⟩⟩

theorem gapState_reach : (detectSystem "IEF403I".toList).Reach gapState := by
  have hidle : (detectSystem "IEF403I".toList).Reach ⟨[], 0, .idle⟩ := .init rfl
  have hissued : (detectSystem "IEF403I".toList).Reach ⟨[], 0, .issued 0⟩ :=
    hidle.step (.issue _ rfl)
  have hwritten : (detectSystem "IEF403I".toList).Reach ⟨[startedAt38], 0, .issued 0⟩ :=
    hissued.step (.write _ startedAt38 (List.forall_mem_nil _))
  exact hwritten.step (.anchor _ 0 ⟨some 38, 1⟩ rfl (by decide +kernel))

theorem gapState_near : gapState.AnchorNear := by
  intro handed first seen base hp a ha
  cases hp
  have hlast : lastSecond [startedAt38] = some 38 := by decide +kernel
  have heq : some 38 = some a := hlast.symm.trans ha
  cases heq
  intro e he
  obtain rfl := List.mem_singleton.mp he
  exact ⟨by decide, by decide⟩

theorem detects_iff_gap :
    gapState.Detects "IEF403I".toList 200 ↔ gapState.Reaches "IEF403I".toList :=
  detects_iff "IEF403I".toList 200 gapState_reach gapState_near

/-- No poll ever counts it. -/
theorem gap_undetected : (detectSystem "IEF403I".toList).Reach gapState ∧
    ¬ gapState.Detects "IEF403I".toList 200 := by
  refine ⟨gapState_reach, fun h => ?_⟩
  have hcount := h 0 0 1 ⟨some 38, 1⟩ rfl [] startedAt38 [] rfl (le_refl 0) (by decide +kernel)
  exact absurd hcount (by unfold CountedAsNew; decide +kernel)

end Mvsmf
