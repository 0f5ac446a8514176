import Mvsmf.Console.Collect

/-!
# What a capture leaves in its variables

`capture_response` lets `correlate_once` write to three places: the buffer, its own line count and
the caller's echo second. A poll without a snapshot writes to none of them, and one with a snapshot
to all three, so they are always from one poll.
-/

namespace Mvsmf

open CLib

/-! ## The variables -/

/-- What the polls of a capture write to. -/
structure CaptureVars where
  out : List Char
  total : Nat
  echoSecs : Option Nat

/-- `correlate_once` through its pointers; `false` is `MTT_SNAP_FAILED`. -/
def correlateInto (snap : Option (List MtEntry)) (cmdUpper : List Char) (outsz skip : Nat)
    (wantSecs : Option Nat) (v : CaptureVars) : Bool × CaptureVars :=
  match snap with
  | none => (false, v)
  | some arr =>
    let v := { v with out := [] }
    let v := { v with echoSecs := none }
    match findEcho cmdUpper wantSecs arr with
    | none => (true, { v with total := 0 })
    | some (echo, rest) =>
      let v := { v with echoSecs := mttSecsOfDay echo.line }
      let lines := (corrScan echo).takes (corrStart echo) rest
      let v := { v with out := cString (fill '\r' outsz 0 (lines.drop skip)) }
      (true, { v with total := lines.length })

/-- What `capture_response` returns. -/
inductive CaptureRc
  | interrupted
  | failed
  | lines (total : Nat)

/-- `looked` is whether some poll got a snapshot. -/
def captureRc (looked : Bool) (v : CaptureVars) : CaptureRc :=
  if looked then .lines v.total else .failed

/-- The loop, with the turns it did not come to; `none` if the turns do not end it. -/
def captureLoop (cmdUpper : List Char) (outsz : Nat) :
    Nat → Nat → Bool → CaptureVars → List CapturePoll →
      Option (CaptureRc × CaptureVars × List CapturePoll)
  | _, _, _, _, [] => none
  | stable, prevTotal, looked, v, p :: ps =>
    if p.quiesced then some (.interrupted, v, ps)
    else
      match correlateInto p.snap cmdUpper outsz 0 none v with
      | (true, v) =>
        let same := decide (v.total > 0) && v.total == prevTotal
        let stable := if same then stable + 1 else if v.total > 0 then 0 else stable
        if same && decide (stable ≥ 3) then some (captureRc true v, v, ps)
        else if p.timeUp then some (captureRc true v, v, ps)
        else captureLoop cmdUpper outsz stable v.total true v ps
      | (false, v) =>
        if p.timeUp then some (captureRc looked v, v, ps)
        else captureLoop cmdUpper outsz stable prevTotal looked v ps

/-- The call, with what the caller has in its buffer and in its echo second. -/
def captureInto (cmdUpper : List Char) (outsz : Nat) (out : List Char) (echoSecs : Option Nat)
    (polls : List CapturePoll) : Option (CaptureRc × CaptureVars × List CapturePoll) :=
  captureLoop cmdUpper outsz 0 0 false ⟨out, 0, echoSecs⟩ polls

/-! ## One poll -/

def Correlated.vars (r : Correlated) : CaptureVars := ⟨r.out, r.total, r.echoSecs⟩

/-- A poll writes all three or none. -/
theorem correlateInto_eq (snap : Option (List MtEntry)) (cmdUpper : List Char) (outsz skip : Nat)
    (wantSecs : Option Nat) (v : CaptureVars) :
    correlateInto snap cmdUpper outsz skip wantSecs v =
      match correlateOnce snap cmdUpper outsz skip wantSecs with
      | none => (false, v)
      | some r => (true, r.vars) := by
  cases snap with
  | none => rfl
  | some arr =>
    rw [correlateInto, correlateOnce, blockLines]
    dsimp only [Correlated.vars]
    cases findEcho cmdUpper wantSecs arr with
    | none =>
      rw [List.drop_nil]
      rfl
    | some r => rfl

/-- The capture returns what `captureResponse` has of the same turns. -/
def CaptureRc.seen : CaptureRc → CaptureVars → Captured
  | .interrupted, _ => .interrupted
  | .failed, _ => .failed
  | .lines total, v => .block ⟨v.out, total, v.echoSecs⟩

/-- The loop over the variables is the one that carries the last correlation. -/
theorem captureLoop_refines (cmdUpper : List Char) (outsz : Nat) {stable prevTotal : Nat}
    {looked : Option Correlated} {v : CaptureVars} (hv : ∀ r, looked = some r → v = r.vars)
    (polls : List CapturePoll) :
    (captureLoop cmdUpper outsz stable prevTotal looked.isSome v polls).map
        (fun r => (r.1.seen r.2.1, r.2.2)) =
      captureResponse cmdUpper outsz stable prevTotal looked polls := by
  induction polls generalizing stable prevTotal looked v with
  | nil => rfl
  | cons p polls ih =>
    rw [captureLoop, captureResponse, correlateInto_eq]
    by_cases hq : p.quiesced = true
    · rw [if_pos hq, if_pos hq]
      rfl
    · rw [if_neg hq, if_neg hq]
      cases correlateOnce p.snap cmdUpper outsz 0 none with
      | none =>
        dsimp only
        by_cases htime : p.timeUp = true
        · rw [if_pos htime, if_pos htime]
          cases looked with
          | none => rfl
          | some r =>
            obtain rfl := hv r rfl
            rfl
        · rw [if_neg htime, if_neg htime]
          exact ih hv
      | some r =>
        have hvars : ∀ r', some r = some r' → r.vars = r'.vars := by
          intro r' hr
          rw [Option.some.inj hr]
        dsimp only [Correlated.vars]
        generalize (if (decide (r.total > 0) && r.total == prevTotal) = true then stable + 1
          else if r.total > 0 then 0 else stable) = stable'
        by_cases hstable : (decide (r.total > 0) && r.total == prevTotal &&
            decide (stable' ≥ 3)) = true
        · rw [if_pos hstable, if_pos hstable]
          rfl
        · rw [if_neg hstable, if_neg hstable]
          by_cases htime : p.timeUp = true
          · rw [if_pos htime, if_pos htime]
            rfl
          · rw [if_neg htime, if_neg htime]
            exact ih hvars

/-! ## A whole capture -/

/-- What one poll with the snapshot `arr` writes. -/
def polledVars (cmdUpper : List Char) (outsz : Nat) (arr : List MtEntry) : CaptureVars :=
  (correlateInto (some arr) cmdUpper outsz 0 none ⟨[], 0, none⟩).2

/-- The last snapshot among the polls. -/
def lastSnap (polls : List CapturePoll) : Option (List MtEntry) :=
  (polls.filterMap (·.snap)).getLast?

/-- The variables after the polls, with what they held before. -/
def varsAfter (cmdUpper : List Char) (outsz : Nat) (polls : List CapturePoll) (v : CaptureVars) :
    CaptureVars :=
  (lastSnap polls).elim v (polledVars cmdUpper outsz)

theorem lastSnap_cons (p : CapturePoll) (polls : List CapturePoll) :
    lastSnap (p :: polls) = (lastSnap polls).or p.snap := by
  rw [lastSnap, lastSnap]
  cases hsnap : p.snap with
  | none => rw [List.filterMap_cons_none hsnap, Option.or_none]
  | some arr =>
    rw [List.filterMap_cons_some hsnap, List.getLast?_cons]
    cases (polls.filterMap (·.snap)).getLast? <;> rfl

theorem varsAfter_single (cmdUpper : List Char) (outsz : Nat) (p : CapturePoll) (v : CaptureVars) :
    varsAfter cmdUpper outsz [p] v = p.snap.elim v (polledVars cmdUpper outsz) := by
  rw [varsAfter, lastSnap_cons]
  rfl

theorem lastSnap_eq_none_iff {polls : List CapturePoll} :
    lastSnap polls = none ↔ ∀ p ∈ polls, p.snap = none := by
  rw [lastSnap, List.getLast?_eq_none_iff, List.filterMap_eq_nil_iff]

/-- The line counts of the polls that had a snapshot. -/
def totals (cmdUpper : List Char) (outsz : Nat) (polls : List CapturePoll) : List Nat :=
  (polls.filterMap (·.snap)).map fun arr => (polledVars cmdUpper outsz arr).total

/-- A capture stops behind these polls: the time was up at the last, or the last four snapshots had
one and the same number of lines, and some. -/
def CaptureEnds (cmdUpper : List Char) (outsz : Nat) (polled : List CapturePoll) : Prop :=
  (∃ p ∈ polled.getLast?, p.timeUp = true) ∨
    ∃ n > 0, List.replicate 4 n <:+ totals cmdUpper outsz polled

/-- What the loop knows behind the polls `before`: `prevTotal` is the last count, and `stable + 1`
times in a row, not more. -/
structure CaptureSteady (cmdUpper : List Char) (outsz stable prevTotal : Nat)
    (before : List CapturePoll) : Prop where
  stable_lt : stable < 3
  last : prevTotal = (totals cmdUpper outsz before).getLast?.getD 0
  row : ∀ k, prevTotal > 0 →
    (List.replicate k prevTotal <:+ totals cmdUpper outsz before ↔ k ≤ stable + 1)

theorem totals_concat_none (cmdUpper : List Char) (outsz : Nat) (before : List CapturePoll)
    {p : CapturePoll} (hsnap : p.snap = none) :
    totals cmdUpper outsz (before ++ [p]) = totals cmdUpper outsz before := by
  rw [totals, totals, List.filterMap_append, List.filterMap_cons_none hsnap, List.filterMap_nil,
    List.append_nil]

theorem totals_concat_some (cmdUpper : List Char) (outsz : Nat) (before : List CapturePoll)
    {p : CapturePoll} {arr : List MtEntry} (hsnap : p.snap = some arr) :
    totals cmdUpper outsz (before ++ [p]) =
      totals cmdUpper outsz before ++ [(polledVars cmdUpper outsz arr).total] := by
  rw [totals, totals, List.filterMap_append, List.filterMap_cons_some hsnap, List.filterMap_nil,
    List.map_append]
  rfl

theorem captureEnds_concat_iff (cmdUpper : List Char) (outsz : Nat) (before : List CapturePoll)
    (p : CapturePoll) :
    CaptureEnds cmdUpper outsz (before ++ [p]) ↔ p.timeUp = true ∨
      ∃ n > 0, List.replicate 4 n <:+ totals cmdUpper outsz (before ++ [p]) := by
  rw [CaptureEnds, List.getLast?_concat]
  simp

/-- A row of equal counts at the end is one longer behind one more of them. -/
theorem replicate_suffix_concat_iff (k n t : Nat) (ts : List Nat) :
    List.replicate (k + 1) n <:+ ts ++ [t] ↔ n = t ∧ List.replicate k n <:+ ts := by
  rw [List.replicate_succ', List.suffix_concat_iff]
  constructor
  · rintro (hnil | ⟨u, hu, hsuf⟩)
    · exact absurd hnil (List.append_ne_nil_of_right_ne_nil _ (List.cons_ne_nil n []))
    · obtain ⟨rfl, hn⟩ := List.append_inj' hu rfl
      exact ⟨List.head_eq_of_cons_eq hn, hsuf⟩
  · rintro ⟨rfl, hsuf⟩
    exact Or.inr ⟨_, rfl, hsuf⟩

/-- The count behind one more snapshot, and whether the loop stops there for its sake. -/
theorem CaptureSteady.next {cmdUpper : List Char} {outsz stable prevTotal t : Nat}
    {before : List CapturePoll} (h : CaptureSteady cmdUpper outsz stable prevTotal before)
    {p : CapturePoll} (hconcat : totals cmdUpper outsz (before ++ [p]) =
      totals cmdUpper outsz before ++ [t]) :
    let same := decide (t > 0) && t == prevTotal
    let stable' := if same = true then stable + 1 else if t > 0 then 0 else stable
    ((same && decide (stable' ≥ 3)) = true ↔
      ∃ n > 0, List.replicate 4 n <:+ totals cmdUpper outsz (before ++ [p])) ∧
    ((same && decide (stable' ≥ 3)) = false →
      CaptureSteady cmdUpper outsz stable' t (before ++ [p])) := by
  intro same stable'
  have hsame : same = true ↔ t > 0 ∧ t = prevTotal := by
    simp only [same, Bool.and_eq_true, decide_eq_true_eq, beq_iff_eq]
  have hlt := h.stable_lt
  -- a row of `t` in front of this snapshot is one of the last count
  have hrow : ∀ k, t > 0 → (List.replicate k t <:+ totals cmdUpper outsz before ↔
      k = 0 ∨ t = prevTotal ∧ k ≤ stable + 1) := by
    intro k ht
    cases k with
    | zero => simp
    | succ k =>
      by_cases heq : t = prevTotal
      · rw [heq, h.row _ (heq ▸ ht)]
        simp
      · refine iff_of_false ?_ (by simp [heq])
        intro hsuf
        refine heq ?_
        rw [h.last]
        obtain ⟨us, hus⟩ := hsuf
        rw [← hus, List.replicate_succ', ← List.append_assoc, List.getLast?_concat]
        rfl
  constructor
  · rw [hconcat]
    simp only [replicate_suffix_concat_iff, Bool.and_eq_true, decide_eq_true_eq]
    constructor
    · rintro ⟨hs, hge⟩
      obtain ⟨ht, heq⟩ := hsame.mp hs
      simp only [stable', if_pos hs] at hge
      exact ⟨t, ht, rfl, (hrow 3 ht).mpr (Or.inr ⟨heq, by omega⟩)⟩
    · rintro ⟨n, hn, rfl, hsuf⟩
      obtain hk | ⟨heq, hk⟩ := (hrow 3 hn).mp hsuf
      · cases hk
      · have hs := hsame.mpr ⟨hn, heq⟩
        refine ⟨hs, ?_⟩
        simp only [stable', if_pos hs]
        omega
  · intro hgo
    refine ⟨?_, ?_, ?_⟩
    · cases hs : same with
      | true =>
        rw [hs, Bool.true_and, decide_eq_false_iff_not] at hgo
        omega
      | false =>
        simp only [stable', hs, Bool.false_eq_true, if_false]
        split <;> omega
    · rw [hconcat, List.getLast?_concat]
      rfl
    · intro k ht
      rw [hconcat]
      cases k with
      | zero => simp
      | succ k =>
        rw [replicate_suffix_concat_iff, hrow k ht]
        by_cases heq : t = prevTotal
        · have hs : stable' = stable + 1 := if_pos (hsame.mpr ⟨ht, heq⟩)
          rw [hs]
          omega
        · have hs : stable' = 0 := by
            rw [show stable' = _ from if_neg fun hs => heq (hsame.mp hs).2, if_pos ht]
          rw [hs]
          omega

/-- One turn without the server quiescing: it ends the capture exactly if the polls so far do, and
else goes on with what its poll left. -/
theorem captureLoop_turn (cmdUpper : List Char) (outsz : Nat) {stable prevTotal : Nat}
    (looked : Bool) (v : CaptureVars) {before : List CapturePoll}
    (h : CaptureSteady cmdUpper outsz stable prevTotal before)
    (hgo : ¬CaptureEnds cmdUpper outsz before) {p : CapturePoll} (hq : p.quiesced = false)
    (ps : List CapturePoll) :
    let v' := varsAfter cmdUpper outsz [p] v
    let looked' := looked || p.snap.isSome
    let r := captureLoop cmdUpper outsz stable prevTotal looked v (p :: ps)
    (CaptureEnds cmdUpper outsz (before ++ [p]) ∧ r = some (captureRc looked' v', v', ps)) ∨
      ¬CaptureEnds cmdUpper outsz (before ++ [p]) ∧
      ∃ stable' prevTotal', CaptureSteady cmdUpper outsz stable' prevTotal' (before ++ [p]) ∧
        r = captureLoop cmdUpper outsz stable' prevTotal' looked' v' ps := by
  intro v' looked' r
  simp only [v', looked', r]
  rw [captureLoop, hq, if_neg Bool.false_ne_true, varsAfter_single, captureEnds_concat_iff]
  cases hsnap : p.snap with
  | none =>
    have htotals := totals_concat_none cmdUpper outsz before hsnap
    have hrow : ¬∃ n > 0, List.replicate 4 n <:+ totals cmdUpper outsz (before ++ [p]) := by
      rw [htotals]
      exact fun hrow => hgo (Or.inr hrow)
    simp only [correlateInto, Option.isSome_none, Bool.or_false]
    cases htime : p.timeUp with
    | true => exact Or.inl ⟨Or.inl rfl, rfl⟩
    | false =>
      refine Or.inr ⟨?_, stable, prevTotal, ⟨h.stable_lt, ?_, ?_⟩, rfl⟩
      · rintro (htrue | htrue)
        · cases htrue
        · exact hrow htrue
      · rw [htotals]
        exact h.last
      · rw [htotals]
        exact h.row
  | some arr =>
    have hvars : (correlateInto (some arr) cmdUpper outsz 0 none v) =
        (true, polledVars cmdUpper outsz arr) := by
      rw [polledVars, correlateInto_eq, correlateInto_eq]
      rfl
    rw [hvars]
    obtain ⟨hstop, hnext⟩ := h.next (totals_concat_some cmdUpper outsz before hsnap)
    rw [← hstop]
    simp only [Option.isSome_some, Bool.or_true, Option.elim_some]
    cases hstable : (decide ((polledVars cmdUpper outsz arr).total > 0) &&
        (polledVars cmdUpper outsz arr).total == prevTotal &&
        decide ((if (decide ((polledVars cmdUpper outsz arr).total > 0) &&
          (polledVars cmdUpper outsz arr).total == prevTotal) = true then stable + 1
          else if (polledVars cmdUpper outsz arr).total > 0 then 0 else stable) ≥ 3)) with
    | true =>
      rw [if_pos rfl]
      exact Or.inl ⟨Or.inr rfl, rfl⟩
    | false =>
      rw [if_neg Bool.false_ne_true]
      cases htime : p.timeUp with
      | true => exact Or.inl ⟨Or.inl rfl, rfl⟩
      | false => exact Or.inr ⟨by simp, _, _, hnext hstable, rfl⟩

theorem varsAfter_cons (cmdUpper : List Char) (outsz : Nat) (p : CapturePoll)
    (polls : List CapturePoll) (v : CaptureVars) :
    varsAfter cmdUpper outsz (p :: polls) v =
      varsAfter cmdUpper outsz polls (varsAfter cmdUpper outsz [p] v) := by
  rw [varsAfter, varsAfter, varsAfter, lastSnap_cons, lastSnap_cons]
  cases lastSnap polls <;> rfl

/-- A capture ends with the time at the latest, with the first poll behind which it stops, and what
it then has is from the last poll with a snapshot that it made. -/
theorem captureLoop_run (cmdUpper : List Char) (outsz : Nat) {stable prevTotal : Nat}
    (looked : Bool) (v : CaptureVars) {before : List CapturePoll}
    (h : CaptureSteady cmdUpper outsz stable prevTotal before)
    (hgo : ¬CaptureEnds cmdUpper outsz before) {polls : List CapturePoll}
    (hq : ∀ p ∈ polls, p.quiesced = false) (htime : ∃ p ∈ polls, p.timeUp = true) :
    ∃ polled rest, polls = polled ++ rest ∧
      CaptureEnds cmdUpper outsz (before ++ polled) ∧
      (∀ pre, pre <+: polled → CaptureEnds cmdUpper outsz (before ++ pre) → pre = polled) ∧
      captureLoop cmdUpper outsz stable prevTotal looked v polls =
        some (captureRc (looked || (lastSnap polled).isSome) (varsAfter cmdUpper outsz polled v),
          varsAfter cmdUpper outsz polled v, rest) := by
  induction polls generalizing stable prevTotal looked v before with
  | nil =>
    obtain ⟨p, hp, -⟩ := htime
    cases hp
  | cons p ps ih =>
    rw [List.forall_mem_cons] at hq
    rcases captureLoop_turn cmdUpper outsz looked v h hgo hq.1 ps with
      ⟨hends, hend⟩ | ⟨hgo', stable', prevTotal', h', hon⟩
    · refine ⟨[p], ps, rfl, hends, ?_, ?_⟩
      · intro pre hpre hpreEnds
        rcases List.prefix_concat_iff.mp (show pre <+: [] ++ [p] from hpre) with rfl | hnil
        · rfl
        · rw [List.prefix_nil.mp hnil, List.append_nil] at hpreEnds
          exact absurd hpreEnds hgo
      · rw [hend, lastSnap_cons]
        rfl
    · have htime' : ∃ q ∈ ps, q.timeUp = true := by
        obtain ⟨q, hmem, hq'⟩ := htime
        rcases List.mem_cons.mp hmem with rfl | hmem
        · exact absurd ((captureEnds_concat_iff _ _ _ _).mpr (Or.inl hq')) hgo'
        · exact ⟨q, hmem, hq'⟩
      obtain ⟨polled, rest, rfl, hends, hfirst, hrun⟩ := ih (looked || p.snap.isSome)
        (varsAfter cmdUpper outsz [p] v) h' hgo' hq.2 htime'
      rw [List.append_assoc, List.singleton_append] at hends
      refine ⟨p :: polled, rest, rfl, hends, ?_, ?_⟩
      · intro pre hpre hpreEnds
        cases pre with
        | nil =>
          rw [List.append_nil] at hpreEnds
          exact absurd hpreEnds hgo
        | cons q pre =>
          obtain ⟨rfl, htail⟩ := List.cons_prefix_cons.mp hpre
          rw [hfirst pre htail (by rwa [List.append_assoc, List.singleton_append])]
      · rw [hon, hrun, varsAfter_cons cmdUpper outsz p polled, lastSnap_cons]
        cases lastSnap polled <;> simp

/-- Before the first poll. -/
theorem captureSteady_nil (cmdUpper : List Char) (outsz : Nat) :
    CaptureSteady cmdUpper outsz 0 0 [] ∧ ¬CaptureEnds cmdUpper outsz [] := by
  constructor
  · exact ⟨by omega, rfl, fun _ h => absurd h (lt_irrefl 0)⟩
  · rintro (⟨p, hp, -⟩ | ⟨n, -, hsuf⟩)
    · cases hp
    · have := hsuf.length_le
      simp [totals] at this

/-! ## The count of a collect -/

/-- The delivered count after collects of one command, each with its storage and snapshot. -/
def deliveredAfter (cmdUpper : List Char) (echoSecs : Option Nat) (cap : Nat) (delivered : Nat)
    (calls : List CollectCall) : Nat :=
  calls.foldl (fun d c => (collectPoll c.storage c.snap cmdUpper echoSecs cap d).2) delivered

theorem le_collectPoll (storage : Bool) (snap : Option (List MtEntry)) (cmdUpper : List Char)
    (echoSecs : Option Nat) (cap delivered : Nat) :
    delivered ≤ (collectPoll storage snap cmdUpper echoSecs cap delivered).2 := by
  cases storage with
  | false => exact le_refl _
  | true =>
    cases snap with
    | none => exact le_refl _
    | some arr =>
      rw [collectPoll_done]
      exact Nat.le_max_left _ _

theorem le_deliveredAfter (cmdUpper : List Char) (echoSecs : Option Nat) (cap delivered : Nat)
    (calls : List CollectCall) :
    delivered ≤ deliveredAfter cmdUpper echoSecs cap delivered calls := by
  induction calls generalizing delivered with
  | nil => exact le_refl _
  | cons c calls ih =>
    exact (le_collectPoll c.storage c.snap cmdUpper echoSecs cap delivered).trans (ih _)

/-- **A capture is of one poll**: with no quiescing it polls up to the first turn behind which it
stops, and the count it returns, the text and the echo second are those of the last of these polls
with a snapshot; it fails exactly if none had one. A collect without a snapshot has no text and
leaves the count, which no run of collects makes less. -/
theorem captureInto_one_poll (cmdUpper : List Char) (outsz : Nat) (out : List Char)
    (echoSecs : Option Nat) {polls : List CapturePoll} (hq : ∀ p ∈ polls, p.quiesced = false)
    (htime : ∃ p ∈ polls, p.timeUp = true) :
    (∃ polled rest rc v, polls = polled ++ rest ∧
      CaptureEnds cmdUpper outsz polled ∧
      (∀ pre, pre <+: polled → CaptureEnds cmdUpper outsz pre → pre = polled) ∧
      captureInto cmdUpper outsz out echoSecs polls = some (rc, v, rest) ∧
      (rc = .failed ↔ ∀ p ∈ polled, p.snap = none) ∧
      ∀ arr, lastSnap polled = some arr →
        rc = .lines (polledVars cmdUpper outsz arr).total ∧ v = polledVars cmdUpper outsz arr) ∧
    (∀ storage want cap delivered,
      collectPoll storage none cmdUpper want cap delivered = (none, delivered)) ∧
    ∀ want cap delivered calls₁ calls₂,
      deliveredAfter cmdUpper want cap delivered calls₁ ≤
        deliveredAfter cmdUpper want cap delivered (calls₁ ++ calls₂) := by
  refine ⟨?_, fun storage want cap delivered => collectPoll_failed (Or.inr rfl) _ _ _ _, ?_⟩
  · obtain ⟨hsteady, hgo⟩ := captureSteady_nil cmdUpper outsz
    obtain ⟨polled, rest, hpolls, hends, hfirst, hrun⟩ :=
      captureLoop_run cmdUpper outsz false ⟨out, 0, echoSecs⟩ hsteady hgo hq htime
    refine ⟨polled, rest, _, _, hpolls, hends, hfirst, hrun, ?_, ?_⟩
    · rw [Bool.false_or, ← lastSnap_eq_none_iff]
      cases lastSnap polled with
      | none => exact ⟨fun _ => rfl, fun _ => rfl⟩
      | some arr =>
        constructor
        · intro h
          cases h
        · intro h
          cases h
    · intro arr harr
      rw [varsAfter, harr]
      exact ⟨rfl, rfl⟩
  · intro want cap delivered calls₁ calls₂
    rw [deliveredAfter, deliveredAfter, List.foldl_append]
    exact le_deliveredAfter cmdUpper want cap _ calls₂

/-- A failed poll before the one that succeeds and one behind it. -/
def unsteadyPolls : List CapturePoll :=
  [⟨false, none, false⟩, ⟨false, some [stcEntry "D T".toList], false⟩, ⟨false, none, true⟩]

theorem captureInto_one_poll_unsteady :
    (∃ polled rest rc v, unsteadyPolls = polled ++ rest ∧
      CaptureEnds "D T".toList RESP_CAP polled ∧
      (∀ pre, pre <+: polled → CaptureEnds "D T".toList RESP_CAP pre → pre = polled) ∧
      captureInto "D T".toList RESP_CAP [] none unsteadyPolls = some (rc, v, rest) ∧
      (rc = .failed ↔ ∀ p ∈ polled, p.snap = none) ∧
      ∀ arr, lastSnap polled = some arr →
        rc = .lines (polledVars "D T".toList RESP_CAP arr).total ∧
          v = polledVars "D T".toList RESP_CAP arr) ∧
    (∀ storage want cap delivered,
      collectPoll storage none "D T".toList want cap delivered = (none, delivered)) ∧
    ∀ want cap delivered calls₁ calls₂,
      deliveredAfter "D T".toList want cap delivered calls₁ ≤
        deliveredAfter "D T".toList want cap delivered (calls₁ ++ calls₂) :=
  captureInto_one_poll "D T".toList RESP_CAP [] none
    (by simp [unsteadyPolls]) (by simp [unsteadyPolls])

end Mvsmf
