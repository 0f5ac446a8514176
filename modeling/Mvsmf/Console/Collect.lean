import Mvsmf.Console.Correlate
import Mvsmf.Lib.Padding
import Mvsmf.Common.Answer
import Mathlib

/-!
# The console protocol on one cursor

The issue of a command polls the table until its block is stable or the time is over and stores a
cursor; each collect answers the lines beyond the cursor's count. The cursor keeps the command in a
`char[126]`, one character less than the longest command has.
-/

namespace Mvsmf

/-! ## The issue -/

def CMD_MAX : Nat := 126

/-- The size of `cmd` in a cursor. -/
def SOL_CMD_SIZE : Nat := 126

/-- One turn of the capture: whether the server is quiescing before it, its snapshot, and whether
`POLL_SECONDS` are over behind it. -/
structure CapturePoll where
  quiesced : Bool
  snap : Option (List MtEntry)
  timeUp : Bool

inductive Captured
  | interrupted
  | failed
  | block (r : Correlated)

/-- The capture over the turns it is given, with the turns it did not come to; `none` if they do not
end it. `looked` is the last poll with a snapshot. -/
def captureResponse (cmdUpper : List Char) (outsz : Nat) :
    Nat → Nat → Option Correlated → List CapturePoll → Option (Captured × List CapturePoll)
  | _, _, _, [] => none
  | stable, prevTotal, looked, p :: ps =>
    if p.quiesced then some (.interrupted, ps)
    else
      match correlateOnce p.snap cmdUpper outsz 0 none with
      | some r =>
        let same := decide (r.total > 0) && r.total == prevTotal
        let stable := if same then stable + 1 else if r.total > 0 then 0 else stable
        if same && decide (stable ≥ 3) then some (.block r, ps)
        else if p.timeUp then some (.block r, ps)
        else captureResponse cmdUpper outsz stable r.total (some r) ps
      | none =>
        if p.timeUp then some ((looked.map .block).getD .failed, ps)
        else captureResponse cmdUpper outsz stable prevTotal looked ps

/-- What `sol_cursor` keeps for a collect. -/
structure SolCursor where
  delivered : Nat
  echoSecs : Option Nat
  cmd : List Char

/-- The error answers of the console requests. -/
structure ConsoleError where
  http : Nat
  retcode : Nat
  reasonCode : Nat
  reason : String

inductive Issued
  | error (e : ConsoleError)
  | ok (text : List Char) (cur : SolCursor)

/-- The issue of a command from the check of `cmd` on; `none` if the turns do not end the capture
or go on behind its end. -/
def consoleIssue (cmd : List Char) (isAsync : Bool) (polls : List CapturePoll) : Option Issued :=
  let cmdUpper := cmd.map Char.toUpper
  if cmd = [] then
    some (.error ⟨400, 1, 13, "Cannot find 'cmd' in request body, or value of 'cmd' is empty."⟩)
  else if cmd.length > CMD_MAX then
    some (.error ⟨400, 1, 17, "Command length must be less than 127."⟩)
  else
    match captureResponse cmdUpper RESP_CAP 0 0 none polls with
    | some (.failed, []) =>
      some (.error ⟨500, 8, 14, "Command was issued; the Master Trace Table could not be " ++
        "copied, so the response could not be read. Do not blindly " ++
        "retry -- retry re-issues the command."⟩)
    | some (.interrupted, []) =>
      some (.error ⟨503, 8, 15, "Command was issued; response capture abandoned (server " ++
        "quiescing). Do not blindly retry -- retry re-issues the command."⟩)
    | some (.block r, []) =>
      some (.ok (if isAsync then [] else r.out)
        { delivered := if isAsync then 0 else r.total
          echoSecs := r.echoSecs
          cmd := cmdUpper.take (SOL_CMD_SIZE - 1) })
    | _ => none

/-! ## The collects -/

/-- What a collect meets: whether there is storage for the response, and the snapshot. -/
structure CollectCall where
  storage : Bool
  snap : Option (List MtEntry)

/-- The snapshot a collect takes. -/
def CollectCall.taken (c : CollectCall) : Option (List MtEntry) :=
  if c.storage then c.snap else none

def consoleCollect (cur : SolCursor) (c : CollectCall) :
    Except ConsoleError (List Char) × SolCursor :=
  let r := collectPoll c.storage c.snap cur.cmd cur.echoSecs RESP_CAP cur.delivered
  let answer := match r.1 with
    | some text => .ok text
    | none => .error ⟨500, 8, 1, "An error occurred during the retrieval of the command response."⟩
  (answer, { cur with delivered := r.2 })

/-- The text of an answer, none if it is an error. -/
def answerText : Except ConsoleError (List Char) → List Char
  | .ok text => text
  | .error _ => []

/-- The texts of a run of collects on a cursor. -/
def collectTexts : SolCursor → List CollectCall → List (List Char)
  | _, [] => []
  | cur, c :: cs =>
    let r := consoleCollect cur c
    answerText r.1 :: collectTexts r.2 cs

/-! ## Runs of the protocol -/

/-- The snapshots of a run in their order. -/
def runSnaps (polls : List CapturePoll) (calls : List CollectCall) : List (List MtEntry) :=
  polls.filterMap (·.snap) ++ calls.filterMap (·.taken)

/-- The last snapshot that a text was answered from: an asynchronous issue answers from none. -/
def lastAnswered (isAsync : Bool) (polls : List CapturePoll) (calls : List CollectCall) :
    Option (List MtEntry) :=
  (if isAsync then calls.filterMap (·.taken) else runSnaps polls calls).getLast?

/-- The table keeps the echo of the command, and has no second one. -/
structure OneEcho (cmdUpper : List Char) (snaps : List (List MtEntry)) : Prop where
  grows : snaps.IsChain (Table.Extends (isEchoLine cmdUpper))
  one : ∀ arr ∈ snaps, arr.countP (isEchoLine cmdUpper) ≤ 1

/-- The new lines of each collect fit into its buffer. -/
def CollectsFit : SolCursor → List CollectCall → Prop
  | _, [] => True
  | cur, c :: cs =>
    LinesFit RESP_CAP ((snapLines cur.cmd cur.echoSecs c.taken).drop cur.delivered) ∧
      CollectsFit (consoleCollect cur c).2 cs

/-- The block of each poll of the capture fits into its buffer. -/
def CaptureFits (cmdUpper : List Char) (polls : List CapturePoll) : Prop :=
  ∀ arr ∈ polls.filterMap (·.snap), LinesFit RESP_CAP (blockLines cmdUpper none arr)

/-! ## The block of a table that grows -/

/-- What a cursor cuts off a command with blanks behind `SOL_CMD_SIZE - 1` characters is blank. -/
theorem isEchoLine_cut {cmdUpper : List Char} (h : (rstrip cmdUpper).length ≤ SOL_CMD_SIZE - 1) :
    isEchoLine (cmdUpper.take (SOL_CMD_SIZE - 1)) = isEchoLine cmdUpper := by
  let blanks := cmdUpper.rtakeWhile (· == ' ')
  have hsplit : rstrip cmdUpper ++ blanks = cmdUpper := List.rdropWhile_append_rtakeWhile
  have hblank : ∀ c ∈ blanks, c = ' ' := by
    intro c hc
    simpa using List.mem_rtakeWhile_imp hc
  have hcut : rstrip (cmdUpper.take (SOL_CMD_SIZE - 1)) = rstrip cmdUpper := by
    calc
      rstrip (cmdUpper.take (SOL_CMD_SIZE - 1)) =
          rstrip (rstrip cmdUpper ++ blanks.take (SOL_CMD_SIZE - 1 - (rstrip cmdUpper).length)) := by
        conv_lhs => rw [← hsplit, List.take_append, List.take_of_length_le h]
      _ = rstrip (rstrip cmdUpper) :=
        Padding.rdropWhile_append fun c hc => by simp [hblank c (List.mem_of_mem_take hc)]
      _ = rstrip cmdUpper := List.rdropWhile_idempotent _ _
  funext e
  rw [isEchoLine, isEchoLine, hcut]

/-- The echo a cursor asks for by its second is the one there is. -/
theorem findEcho_pinned {cmdUpper : List Char} {wantSecs : Option Nat} {arr : List MtEntry}
    (hone : arr.countP (isEchoLine cmdUpper) ≤ 1)
    (hwant : ∀ s, wantSecs = some s → ∀ echo rest, findEcho cmdUpper none arr = some (echo, rest) →
      mttSecsOfDay echo.line = some s) :
    findEcho cmdUpper wantSecs arr = findEcho cmdUpper none arr := by
  cases wantSecs with
  | none => rfl
  | some s =>
    have himp : ∀ e, (isEchoLine cmdUpper e && mttSecsOfDay e.line == some s) = true →
        isEchoLine cmdUpper e = true := by
      intro e he
      exact (Bool.and_eq_true_iff.mp he).1
    cases hfind : findEcho cmdUpper none arr with
    | none => exact Table.oldest_of_newest_none himp hfind
    | some r =>
      obtain ⟨echo, rest⟩ := r
      apply Table.oldest_of_newest himp hone hfind
      obtain ⟨-, -, hecho, -⟩ := Table.newest_some hfind
      rw [hecho, hwant s rfl echo rest hfind]
      simp

/-- The echo stays and lines are put behind its block only. -/
theorem findEcho_extends {cmdUpper : List Char} {arr arr' : List MtEntry}
    (h : Table.Extends (isEchoLine cmdUpper) arr arr')
    (hone : arr'.countP (isEchoLine cmdUpper) ≤ 1) {echo : MtEntry} {rest : List MtEntry}
    (hfind : findEcho cmdUpper none arr = some (echo, rest)) :
    ∃ new, findEcho cmdUpper none arr' = some (echo, rest ++ new) :=
  h.newest hone hfind

theorem blockLines_extends {cmdUpper : List Char} {arr arr' : List MtEntry}
    (h : Table.Extends (isEchoLine cmdUpper) arr arr')
    (hone : arr'.countP (isEchoLine cmdUpper) ≤ 1) :
    blockLines cmdUpper none arr <+: blockLines cmdUpper none arr' := by
  rw [blockLines]
  cases hfind : findEcho cmdUpper none arr with
  | none => exact List.nil_prefix
  | some r =>
    obtain ⟨new, hnew⟩ := findEcho_extends h hone hfind
    rw [blockLines, hnew]
    exact Scan.takes_prefix _ _ _ _

/-! ## The cursor -/

/-- A cursor that a snapshot agrees with: it asks for the echo of the command that is there, and the
lines it has delivered are lines of the block. -/
structure Synced (cmdUpper : List Char) (cur : SolCursor) (arr : List MtEntry) : Prop where
  cmd : isEchoLine cur.cmd = isEchoLine cmdUpper
  secs : ∀ s, cur.echoSecs = some s → ∃ echo rest, findEcho cmdUpper none arr = some (echo, rest) ∧
    mttSecsOfDay echo.line = some s
  delivered : cur.delivered ≤ (blockLines cmdUpper none arr).length

section
variable {cmdUpper : List Char} {cur : SolCursor} {arr arr' : List MtEntry}

theorem Synced.extends (h : Synced cmdUpper cur arr)
    (hext : Table.Extends (isEchoLine cmdUpper) arr arr')
    (hone : arr'.countP (isEchoLine cmdUpper) ≤ 1) : Synced cmdUpper cur arr' where
  cmd := h.cmd
  secs := by
    intro s hs
    obtain ⟨echo, rest, hfind, hsecs⟩ := h.secs s hs
    obtain ⟨new, hnew⟩ := findEcho_extends hext hone hfind
    exact ⟨echo, rest ++ new, hnew, hsecs⟩
  delivered := h.delivered.trans (blockLines_extends hext hone).length_le

/-- What the cursor asks for is the block of the command. -/
theorem Synced.lines (h : Synced cmdUpper cur arr)
    (hone : arr.countP (isEchoLine cmdUpper) ≤ 1) :
    blockLines cur.cmd cur.echoSecs arr = blockLines cmdUpper none arr := by
  have hfind : findEcho cur.cmd cur.echoSecs arr = findEcho cmdUpper none arr := by
    have hcmd : findEcho cur.cmd cur.echoSecs arr = findEcho cmdUpper cur.echoSecs arr := by
      simp only [findEcho, h.cmd]
    rw [hcmd]
    apply findEcho_pinned hone
    intro s hs echo rest hfound
    obtain ⟨echo', rest', hfound', hsecs⟩ := h.secs s hs
    rw [hfound'] at hfound
    obtain ⟨rfl, -⟩ := Prod.mk.inj (Option.some.inj hfound)
    exact hsecs
  rw [blockLines, blockLines, hfind]

theorem consoleCollect_failed {c : CollectCall} (h : c.taken = none) :
    answerText (consoleCollect cur c).1 = [] ∧ (consoleCollect cur c).2 = cur := by
  have hfail : c.storage = false ∨ c.snap = none := by
    rw [CollectCall.taken] at h
    cases hs : c.storage with
    | false => exact Or.inl rfl
    | true => exact Or.inr (by simpa [hs] using h)
  rw [consoleCollect, collectPoll_failed hfail]
  exact ⟨rfl, rfl⟩

/-- A collect from a snapshot the cursor agrees with: the rest of the block, and the count goes to
its end. -/
theorem consoleCollect_done {c : CollectCall} (h : c.taken = some arr)
    (hs : Synced cmdUpper cur arr) (hone : arr.countP (isEchoLine cmdUpper) ≤ 1)
    (hfit : LinesFit RESP_CAP ((blockLines cmdUpper none arr).drop cur.delivered)) :
    answerText (consoleCollect cur c).1 =
        endedLines '\r' ((blockLines cmdUpper none arr).drop cur.delivered) ∧
      (consoleCollect cur c).2 =
        { cur with delivered := (blockLines cmdUpper none arr).length } := by
  have hc : c.storage = true ∧ c.snap = some arr := by
    rw [CollectCall.taken] at h
    cases hst : c.storage with
    | false => simp [hst] at h
    | true => exact ⟨rfl, by simpa [hst] using h⟩
  rw [consoleCollect, hc.1, hc.2, collectPoll_done, hs.lines hone, out_eq_iff.mpr hfit,
    Nat.max_eq_right hs.delivered]
  exact ⟨rfl, rfl⟩

end

/-- What a run of collects adds to what was delivered before. -/
theorem collectTexts_flatten {cmdUpper : List Char} {cur : SolCursor} {arr : List MtEntry}
    {calls : List CollectCall} (hs : Synced cmdUpper cur arr)
    (hecho : OneEcho cmdUpper (arr :: calls.filterMap (·.taken))) (hfit : CollectsFit cur calls) :
    endedLines '\r' ((blockLines cmdUpper none arr).take cur.delivered) ++
        (collectTexts cur calls).flatten =
      match (calls.filterMap (·.taken)).getLast? with
      | some last => endedLines '\r' (blockLines cmdUpper none last)
      | none => endedLines '\r' ((blockLines cmdUpper none arr).take cur.delivered) := by
  induction calls generalizing cur arr with
  | nil => simp [collectTexts]
  | cons c calls ih =>
    obtain ⟨hhead, htail⟩ := hfit
    rw [collectTexts, List.flatten_cons]
    cases htaken : c.taken with
    | none =>
      obtain ⟨htext, hcur⟩ : answerText (consoleCollect cur c).1 = [] ∧ (consoleCollect cur c).2 = cur :=
        consoleCollect_failed htaken
      rw [hcur] at htail
      rw [List.filterMap_cons_none htaken] at hecho ⊢
      rw [htext, hcur, List.nil_append]
      exact ih hs hecho htail
    | some arr' =>
      rw [List.filterMap_cons_some htaken] at hecho ⊢
      obtain ⟨hext, hchain⟩ := List.isChain_cons_cons.mp hecho.grows
      have hone := hecho.one arr' (by simp)
      have hs' := hs.extends hext hone
      rw [htaken, snapLines, Option.map_some, Option.getD_some, hs'.lines hone] at hhead
      obtain ⟨htext, hcur⟩ := consoleCollect_done htaken hs' hone hhead
      rw [hcur] at htail
      have hsent : (blockLines cmdUpper none arr).take cur.delivered =
          (blockLines cmdUpper none arr').take cur.delivered := by
        obtain ⟨more, hmore⟩ := blockLines_extends hext hone
        rw [← hmore, List.take_append_of_le_length hs.delivered]
      have hcur' : Synced cmdUpper
          { cur with delivered := (blockLines cmdUpper none arr').length } arr' :=
        ⟨hs'.cmd, hs'.secs, Nat.le_refl _⟩
      have hrest := ih hcur' ⟨hchain, fun x hx => hecho.one x (List.mem_cons_of_mem _ hx)⟩ htail
      rw [List.take_length] at hrest
      rw [htext, hcur, hsent, ← List.append_assoc, ← endedLines_append, List.take_append_drop, hrest,
        List.getLast?_cons]
      cases (calls.filterMap (·.taken)).getLast? with
      | none => rfl
      | some last => rfl

/-! ## A run -/

/-- One turn of the capture: a poll with a snapshot takes the place of the one before. -/
theorem captureResponse_turn (cmdUpper : List Char) (outsz stable prevTotal : Nat)
    (looked : Option Correlated) (p : CapturePoll) (polls : List CapturePoll) :
    let out := captureResponse cmdUpper outsz stable prevTotal looked (p :: polls)
    let looked' := (correlateOnce p.snap cmdUpper outsz 0 none).or looked
    out = some (.interrupted, polls) ∨ out = some ((looked'.map .block).getD .failed, polls) ∨
      ∃ stable' prevTotal', out = captureResponse cmdUpper outsz stable' prevTotal' looked' polls := by
  intro out looked'
  simp only [out, looked']
  rw [captureResponse]
  by_cases hq : p.quiesced = true
  · exact Or.inl (if_pos hq)
  · rw [if_neg hq]
    cases hcorr : correlateOnce p.snap cmdUpper outsz 0 none with
    | none =>
      dsimp only [Option.none_or]
      by_cases htime : p.timeUp = true
      · exact Or.inr (Or.inl (if_pos htime))
      · exact Or.inr (Or.inr ⟨stable, prevTotal, if_neg htime⟩)
    | some r =>
      dsimp only [Option.some_or]
      by_cases hstable : (decide (r.total > 0) && r.total == prevTotal &&
          decide ((if (decide (r.total > 0) && r.total == prevTotal) = true then stable + 1
            else if r.total > 0 then 0 else stable) ≥ 3)) = true
      · exact Or.inr (Or.inl (if_pos hstable))
      · rw [if_neg hstable]
        by_cases htime : p.timeUp = true
        · exact Or.inr (Or.inl (if_pos htime))
        · exact Or.inr (Or.inr ⟨_, _, if_neg htime⟩)

/-- What a capture ends with is from its last snapshot. -/
theorem captureResponse_last {cmdUpper : List Char} {outsz stable prevTotal : Nat}
    {looked : Option Correlated} {polls : List CapturePoll} {r : Correlated}
    (h : captureResponse cmdUpper outsz stable prevTotal looked polls = some (.block r, [])) :
    (correlateOnce (polls.filterMap (·.snap)).getLast? cmdUpper outsz 0 none).or looked =
      some r := by
  induction polls generalizing stable prevTotal looked with
  | nil => simp [captureResponse] at h
  | cons p polls ih =>
    -- the turn leaves `looked'`, and the polls behind it start from there
    have hlast : ∀ looked',
        (correlateOnce p.snap cmdUpper outsz 0 none).or looked = looked' →
        (correlateOnce ((p :: polls).filterMap (·.snap)).getLast? cmdUpper outsz 0 none).or looked =
          (correlateOnce (polls.filterMap (·.snap)).getLast? cmdUpper outsz 0 none).or looked' := by
      rintro looked' rfl
      cases hsnap : p.snap with
      | none =>
        rw [List.filterMap_cons_none hsnap]
        rfl
      | some arr =>
        rw [List.filterMap_cons_some hsnap, List.getLast?_cons]
        cases (polls.filterMap (·.snap)).getLast? with
        | none => rfl
        | some last => rfl
    rw [hlast _ rfl]
    rcases captureResponse_turn cmdUpper outsz stable prevTotal looked p polls with
      hout | hout | ⟨stable', prevTotal', hout⟩
    · rw [hout] at h
      simp at h
    · rw [hout] at h
      obtain ⟨hr, rfl⟩ := Prod.mk.inj (Option.some.inj h)
      cases hlooked : (correlateOnce p.snap cmdUpper outsz 0 none).or looked with
      | none => simp [hlooked] at hr
      | some r' =>
        rw [hlooked] at hr
        obtain rfl : r' = r := Captured.block.inj hr
        rfl
    · rw [hout] at h
      exact ih h

/-- An issue that is answered with a text is so from the last snapshot of its capture. -/
theorem consoleIssue_ok {cmd : List Char} {isAsync : Bool} {polls : List CapturePoll}
    {text : List Char} {cur : SolCursor}
    (h : consoleIssue cmd isAsync polls = some (.ok text cur)) :
    ∃ arr r, (polls.filterMap (·.snap)).getLast? = some arr ∧
      correlateOnce (some arr) (cmd.map Char.toUpper) RESP_CAP 0 none = some r ∧
      text = (if isAsync then [] else r.out) ∧
      cur = { delivered := if isAsync then 0 else r.total
              echoSecs := r.echoSecs
              cmd := (cmd.map Char.toUpper).take (SOL_CMD_SIZE - 1) } := by
  rw [consoleIssue] at h
  split at h
  next => simp at h
  next =>
    split at h
    next => simp at h
    next =>
      split at h
      next => simp at h
      next => simp at h
      next r hcap =>
        obtain ⟨rfl, rfl⟩ := Issued.ok.inj (Option.some.inj h)
        have hlast := captureResponse_last hcap
        rw [Option.or_none] at hlast
        cases harr : (polls.filterMap (·.snap)).getLast? with
        | none => simp [harr, correlateOnce] at hlast
        | some arr =>
          rw [harr] at hlast
          exact ⟨arr, r, rfl, hlast, rfl, rfl⟩
      next => simp at h

/-- **The texts of a run are the block.** In a run whose table keeps the one echo of the command and
whose new lines fit, of a command that has at most blanks behind what the cursor keeps of it. -/
theorem consoleRun_texts (cmd : List Char) (isAsync : Bool) (polls : List CapturePoll)
    (calls : List CollectCall) (text : List Char) (cur : SolCursor)
    (hissue : consoleIssue cmd isAsync polls = some (.ok text cur))
    (hecho : OneEcho (cmd.map Char.toUpper) (runSnaps polls calls))
    (hcapture : CaptureFits (cmd.map Char.toUpper) polls) (hfit : CollectsFit cur calls)
    (hcut : (rstrip (cmd.map Char.toUpper)).length ≤ SOL_CMD_SIZE - 1) :
    (text :: collectTexts cur calls).flatten =
      endedLines '\r' (snapLines (cmd.map Char.toUpper) none (lastAnswered isAsync polls calls)) := by
  obtain ⟨arr, r, harr, hr, htext, hcur⟩ := consoleIssue_ok hissue
  obtain rfl := Option.some.inj hr
  generalize cmd.map Char.toUpper = cmdUpper at *
  obtain ⟨before, hpolls⟩ := List.getLast?_eq_some_iff.mp harr
  have hsnaps : runSnaps polls calls = before ++ arr :: calls.filterMap (·.taken) := by
    rw [runSnaps, hpolls, List.append_assoc, List.singleton_append]
  have hecho' : OneEcho cmdUpper (arr :: calls.filterMap (·.taken)) := by
    rw [hsnaps] at hecho
    refine ⟨hecho.grows.right_of_append, fun x hx => hecho.one x ?_⟩
    exact List.mem_append_right _ hx
  have hsync : Synced cmdUpper cur arr := by
    subst hcur
    refine ⟨isEchoLine_cut hcut, ?_, ?_⟩
    · intro s hs
      obtain ⟨⟨echo, rest⟩, hfind, hsecs⟩ := Option.bind_eq_some_iff.mp hs
      exact ⟨echo, rest, hfind, hsecs⟩
    · cases isAsync with
      | true => exact Nat.zero_le _
      | false => exact Nat.le_refl _
  have hsent : text = endedLines '\r' ((blockLines cmdUpper none arr).take cur.delivered) := by
    subst hcur htext
    cases isAsync with
    | true => rfl
    | false =>
      have harrFit := hcapture arr (by rw [hpolls]; simp)
      simpa using out_eq_iff.mpr harrFit
  rw [List.flatten_cons, hsent, collectTexts_flatten hsync hecho' hfit, lastAnswered]
  cases hlast : (calls.filterMap (·.taken)).getLast? with
  | some last =>
    cases isAsync with
    | true => simp [hlast, snapLines]
    | false => simp [runSnaps, List.getLast?_append, hlast, snapLines]
  | none =>
    subst hcur
    cases isAsync with
    | true => simp [hlast, snapLines]
    | false => simp [runSnaps, List.getLast?_append, hlast, harr, snapLines]

/-- The echo of a command and one line of answer. -/
def oneReply (cmd : List Char) : List MtEntry := [stcEntry cmd, stcEntry "IEE136I LOCAL".toList]

theorem oneReply_extends (cmd : List Char) (p : MtEntry → Bool) :
    Table.Extends p [stcEntry cmd] (oneReply cmd) :=
  ⟨[], [stcEntry cmd], [stcEntry "IEE136I LOCAL".toList], rfl, rfl, nofun⟩

/-- The answer comes after the issue was answered, and a collect has it. -/
theorem consoleRun_texts_oneReply :
    let echo := stcEntry "D T".toList
    (([] : List Char) :: collectTexts ⟨0, mttSecsOfDay echo.line, "D T".toList⟩
      [⟨true, some (oneReply "D T".toList)⟩]).flatten =
        endedLines '\r' (snapLines ("D T".toList.map Char.toUpper) none
          (lastAnswered false [⟨false, some [echo], true⟩]
            [⟨true, some (oneReply "D T".toList)⟩])) := by
  intro echo
  apply consoleRun_texts "D T".toList false [⟨false, some [echo], true⟩] _ [] _
  · rfl
  · refine ⟨?_, ?_⟩
    · exact .cons_cons (oneReply_extends _ _) (.singleton _)
    · intro arr harr
      rcases List.mem_pair.mp harr with rfl | rfl
      · decide +kernel
      · decide +kernel
  · intro arr harr
    obtain rfl := List.mem_singleton.mp harr
    exact Or.inl rfl
  · exact ⟨Or.inr (by decide +kernel), trivial⟩
  · decide +kernel

/-- An issue whose capture ends with its first poll. -/
theorem consoleIssue_once {cmd : List Char} (hne : cmd ≠ []) (hlen : cmd.length ≤ CMD_MAX)
    {arr : List MtEntry} (hblock : blockLines (cmd.map Char.toUpper) none arr = []) :
    consoleIssue cmd false [⟨false, some arr, true⟩] =
      some (.ok [] { delivered := 0
                     echoSecs := (findEcho (cmd.map Char.toUpper) none arr).bind
                       fun r => mttSecsOfDay r.1.line
                     cmd := (cmd.map Char.toUpper).take (SOL_CMD_SIZE - 1) }) := by
  rw [consoleIssue, if_neg hne, if_neg (Nat.not_lt.mpr hlen)]
  simp only [captureResponse, correlateOnce, hblock]
  rfl

/-- A command of 126 characters: its cursor has 125 of them and finds no echo. -/
theorem consoleRun_cut :
    ¬ ∀ cmd isAsync polls calls text cur,
      consoleIssue cmd isAsync polls = some (.ok text cur) →
      OneEcho (cmd.map Char.toUpper) (runSnaps polls calls) →
      CaptureFits (cmd.map Char.toUpper) polls → CollectsFit cur calls →
      (text :: collectTexts cur calls).flatten =
        endedLines '\r' (snapLines (cmd.map Char.toUpper) none (lastAnswered isAsync polls calls)) := by
  intro h
  let cmd := List.replicate 126 'D'
  have hblock : blockLines (cmd.map Char.toUpper) none [stcEntry cmd] = [] := by decide +kernel
  have hne : cmd ≠ [] := by decide +kernel
  have hlen : cmd.length ≤ CMD_MAX := by decide +kernel
  have hissue := consoleIssue_once hne hlen hblock
  have hlost := h cmd false _ [⟨true, some (oneReply cmd)⟩] _ _ hissue ?_ ?_ ?_
  · revert hlost
    decide +kernel
  · refine ⟨?_, ?_⟩
    · exact .cons_cons (oneReply_extends _ _) (.singleton _)
    · intro arr harr
      rcases List.mem_pair.mp harr with rfl | rfl
      · decide +kernel
      · decide +kernel
  · intro arr harr
    obtain rfl := List.mem_singleton.mp harr
    rw [hblock]
    exact Or.inl rfl
  · exact ⟨Or.inl (by decide +kernel), trivial⟩

end Mvsmf
