import Mvsmf.Console.Detect
import Mathlib

/-!
# The dates of the hardcopy log

The stamps in the table have no date. The log handler reads the clock, takes the snapshot and walks
from the newest entry back: where a stamp is more than half a day above the one before it, a midnight
lies between them. A walk back can meet a midnight only on the way into the past; the one between
the clock reading and a newer entry it does not see.
-/

namespace Mvsmf

/-! ## The walk back -/

/-- The times the entries get, newest first; `base` is the local time of the clock reading, a line
without a stamp gets 0. -/
def dateBack (base : Nat) : Nat → Nat → List MtEntry → List Int
  | _, _, [] => []
  | daysBack, prevHms, e :: es =>
    match mttSecsOfDay e.line with
    | none => 0 :: dateBack base daysBack prevHms es
    | some sod =>
      let daysBack := if sod > prevHms + 43200 then daysBack + 1 else daysBack
      let day : Int := (base / 86400 : Nat) - (daysBack : Int)
      (day * 86400 + (sod : Int)) :: dateBack base daysBack sod es

/-- `esecs` of a snapshot, oldest first, with the local time `now` of the clock reading. -/
def logTimes (now : Nat) (arr : List MtEntry) : List Int :=
  (dateBack now 0 (now % 86400) arr.reverse).reverse

/-- The time an entry should have. -/
def TimedEntry.loggedTime (e : TimedEntry) : Int := (e.own.map Int.ofNat).getD 0

/-! ## Where it is right -/

/-- Behind `r` the walk finds the day of `t`: it is the same day and not more than half a day later,
or the day before and less than half a day earlier. -/
def DaySeen (r t : Nat) : Prop :=
  t / 86400 = r / 86400 ∧ t ≤ r + 43200 ∨ t / 86400 + 1 = r / 86400 ∧ r < t + 43200

theorem daySeen_iff {day : Int} {r t daysBack : Nat} (hday : day - (daysBack : Int) = (r / 86400 : Nat)) :
    (day - ((if t % 86400 > r % 86400 + 43200 then daysBack + 1 else daysBack : Nat) : Int)) * 86400 +
        ((t % 86400 : Nat) : Int) = t ↔ DaySeen r t := by
  rw [DaySeen]
  split <;> omega

theorem day_of_daySeen {day : Int} {r t daysBack : Nat}
    (hday : day - (daysBack : Int) = (r / 86400 : Nat)) (h : DaySeen r t) :
    day - ((if t % 86400 > r % 86400 + 43200 then daysBack + 1 else daysBack : Nat) : Int) =
      (t / 86400 : Nat) := by
  rw [DaySeen] at h
  split <;> omega

/-- The walk from an entry of the time `r` on. -/
theorem dateBack_iff (base : Nat) {daysBack r : Nat}
    (hday : ((base / 86400 : Nat) : Int) - (daysBack : Int) = (r / 86400 : Nat))
    (l : List TimedEntry) :
    dateBack base daysBack (r % 86400) (entriesOf l) = l.map TimedEntry.loggedTime ↔
      List.IsChain DaySeen (r :: l.filterMap TimedEntry.own) := by
  induction l generalizing daysBack r with
  | nil => simp [entriesOf, dateBack]
  | cons e l ih =>
    rw [entriesOf, List.map_cons, dateBack, e.secsOfDay_eq, List.map_cons, TimedEntry.loggedTime]
    cases hown : e.own with
    | none =>
      rw [List.filterMap_cons_none hown, ← ih hday]
      simp [entriesOf]
    | some t =>
      rw [List.filterMap_cons_some hown, List.isChain_cons_cons, ← daySeen_iff hday]
      simp only [Option.map_some, Option.getD_some, List.cons.injEq]
      refine and_congr_right fun hstep => ?_
      exact ih (day_of_daySeen hday ((daySeen_iff hday).mp hstep))

/-- **The log has the right times** exactly if from the clock reading back over the stamped entries
each step is within a day, or over one midnight and less than half a day. -/
theorem logTimes_iff (now : Nat) (t : List TimedEntry) :
    logTimes now (entriesOf t) = t.map TimedEntry.loggedTime ↔
      List.IsChain DaySeen (now :: (t.filterMap TimedEntry.own).reverse) := by
  rw [logTimes, entriesOf, ← List.map_reverse, ← entriesOf, ← List.filterMap_reverse,
    ← dateBack_iff now (Int.sub_zero _), List.reverse_eq_iff, List.map_reverse]

/-- Where the entries are stamped and less than half a day apart, and the newest is less than half a
day away from the clock reading, the log is right exactly if the newest is not of a later day. -/
theorem logTimes_iff_newest (now : Nat) {t : List TimedEntry} {e : TimedEntry}
    (hstamped : ∀ f ∈ t ++ [e], f.own = some f.time)
    (hgaps : List.IsChain (fun f g => f.time ≤ g.time ∧ g.time < f.time + 43200) (t ++ [e]))
    (hnow : now < e.time + 43200 ∧ e.time < now + 43200) :
    logTimes now (entriesOf (t ++ [e])) = (t ++ [e]).map TimedEntry.loggedTime ↔
      e.time / 86400 ≤ now / 86400 := by
  have htimes : (t ++ [e]).filterMap TimedEntry.own = (t ++ [e]).map TimedEntry.time := by
    rw [← List.filterMap_eq_map]
    exact List.filterMap_congr hstamped
  have hback : List.IsChain DaySeen ((t ++ [e]).map TimedEntry.time).reverse := by
    rw [List.isChain_reverse, List.isChain_map]
    exact hgaps.imp fun f g h => by
      rw [DaySeen]
      omega
  have hfirst : DaySeen now e.time ↔ e.time / 86400 ≤ now / 86400 := by
    rw [DaySeen]
    omega
  rw [logTimes_iff, htimes]
  rw [List.map_append, List.reverse_append] at hback ⊢
  rw [← hfirst]
  change List.IsChain DaySeen (now :: e.time :: (t.map TimedEntry.time).reverse) ↔ _
  rw [List.isChain_cons_cons]
  exact ⟨fun h => h.1, fun h => ⟨h, hback⟩⟩

/-! ## A midnight behind the clock reading -/

def afterMidnight : TimedEntry where
  entry := startedMsg "0.00.01"
  time := 86401
  stamp_eq := (by decide +kernel :
    ∀ s ∈ mttSecsOfDay (startedMsg "0.00.01").line, s = 86401 % 86400)

/-- The clock reads 23:59:59, the entry is written two seconds later: it is dated a day early. -/
theorem logTimes_afterMidnight :
    afterMidnight.time < 86399 + 43200 ∧
      logTimes 86399 (entriesOf [afterMidnight]) ≠ [afterMidnight].map TimedEntry.loggedTime := by
  have hlog : logTimes 86399 (entriesOf [afterMidnight]) = [1] := by decide +kernel
  have htrue : [afterMidnight].map TimedEntry.loggedTime = [86401] := by decide +kernel
  refine ⟨by simp [afterMidnight], ?_⟩
  rw [hlog, htrue]
  decide

end Mvsmf
