import Mvsmf.Jobs.Spool
import Mvsmf.Lib.Prog

/-!
# Printing a spool data set

The spool reader hands the records of a data set to a callback one by one until the callback answers
with a negative code. The callback counts what it has printed; of the JCL input data set it prints the
statements and passes the other records over, and they do not count. A send may fail at any record.
-/

namespace Mvsmf

open Jcl

/-- What is sent: the headers in front of the first record, and a record. -/
inductive SpoolSend where
  | headers
  | printf (line : Text)
  deriving DecidableEq

abbrev SpoolSend.Ans (_ : SpoolSend) : Type := Int

abbrev SpoolEvent := Prog.Event SpoolSend SpoolSend.Ans

/-- `SPOOL_CTX`, and whether the headers have gone out. -/
structure SpoolCtx where
  headersSent : Bool
  limit : Nat
  count : Nat
  total : Nat
  jclin : Bool
  deriving DecidableEq, Repr

/-- The cap is reached. -/
def RC_SPOOL_CAP : Int := -77

/-- A record goes out, and is counted. -/
def printRecord (ctx : SpoolCtx) (line : Text) : Prog SpoolSend SpoolSend.Ans (Int × SpoolCtx) :=
  .call (.printf line) fun rc =>
    .ret (rc, if 0 ≤ rc then { ctx with count := ctx.count + 1, total := ctx.total + 1 } else ctx)

/-- The callback. -/
def doPrintSysoutLine (ctx : SpoolCtx) (line : Text) :
    Prog SpoolSend SpoolSend.Ans (Int × SpoolCtx) :=
  match spoolLineAction ctx.jclin ctx.limit ctx.count line with
  | .stop => .ret (RC_SPOOL_CAP, ctx)
  | .skip => .ret (0, ctx)
  | .emit =>
    if ctx.headersSent then printRecord ctx line
    else
      .call .headers fun rc =>
        if rc < 0 then .ret (rc, ctx) else printRecord { ctx with headersSent := true } line

/-- What is called for each record. -/
abbrev SpoolCallback := SpoolCtx → Text → Prog SpoolSend SpoolSend.Ans (Int × SpoolCtx)

/-- The records are handed over in order, up to the one that is answered with a negative code or to
the last. -/
inductive SpoolWalked (callback : SpoolCallback) :
    SpoolCtx → List Text → List SpoolEvent → SpoolCtx → Prop
  | ended {ctx : SpoolCtx} : SpoolWalked callback ctx [] [] ctx
  | stopped {ctx ctx' : SpoolCtx} {line : Text} {lines : List Text} {t : List SpoolEvent} {rc : Int}
      (call : Prog.Run (callback ctx line) t (rc, ctx')) (negative : rc < 0) :
      SpoolWalked callback ctx (line :: lines) t ctx'
  | goes {ctx ctx' ctx'' : SpoolCtx} {line : Text} {lines : List Text} {t t' : List SpoolEvent}
      {rc : Int} (call : Prog.Run (callback ctx line) t (rc, ctx')) (positive : 0 ≤ rc)
      (rest : SpoolWalked callback ctx' lines t' ctx'') :
      SpoolWalked callback ctx (line :: lines) (t ++ t') ctx''

/-- `jesprint()`: a reader that walks over the records of a data set. -/
abbrev SpoolPrint :=
  SpoolCallback → SpoolCtx → List Text → Prog SpoolSend SpoolSend.Ans (Int × SpoolCtx)

/-- What is relied on of it. -/
def SpoolPrint.HandsOver (jesprint : SpoolPrint) : Prop :=
  ∀ {callback : SpoolCallback} {ctx : SpoolCtx} {lines : List Text} {t : List SpoolEvent}
    {r : Int × SpoolCtx},
    Prog.Run (jesprint callback ctx lines) t r → SpoolWalked callback ctx lines t r.2

/-! ## What is printed -/

/-- A record of the data set's content: in the JCL input data set, a statement. -/
def isContent (jclin : Bool) (line : Text) : Bool := !jclin || line.head? == some '/'

/-- The first `limit` records of the content, or all of it; `count` of them are printed already. -/
def content (jclin : Bool) (limit count : Nat) (lines : List Text) : List Text :=
  if limit = 0 then lines.filter (isContent jclin)
  else (lines.filter (isContent jclin)).take (limit - count)

/-- The records that were handed to a send. -/
def sentRecords : List SpoolEvent → List Text
  | [] => []
  | ⟨.printf line, _⟩ :: t => line :: sentRecords t
  | ⟨.headers, _⟩ :: t => sentRecords t

def sendFailed (t : List SpoolEvent) : Prop := ∃ e ∈ t, e.2 < 0

theorem spoolLineAction_room {jclin : Bool} {limit count : Nat} {line : Text}
    (hroom : limit = 0 ∨ count < limit) :
    spoolLineAction jclin limit count line = if isContent jclin line then .emit else .skip := by
  rw [spoolLineAction, if_neg (by omega)]
  cases jclin with
  | false => rfl
  | true =>
    cases line with
    | nil => rfl
    | cons c cs => simp [isContent]

section

variable {jclin : Bool} {limit count : Nat} {line : Text} {lines : List Text}

theorem content_capped (hlimit : limit ≠ 0) (hcount : limit ≤ count) :
    content jclin limit count lines = [] := by
  rw [content, if_neg hlimit, Nat.sub_eq_zero_of_le hcount, List.take_zero]

theorem content_skip (hline : isContent jclin line = false) :
    content jclin limit count (line :: lines) = content jclin limit count lines := by
  simp only [content, List.filter_cons, hline, Bool.false_eq_true, if_false]

theorem content_emit (hroom : limit = 0 ∨ count < limit) (hline : isContent jclin line = true) :
    content jclin limit count (line :: lines) = line :: content jclin limit (count + 1) lines := by
  simp only [content, List.filter_cons, hline, if_true]
  rcases hroom with rfl | hlt
  · rfl
  · rw [if_neg (by omega), if_neg (by omega), ← List.take_succ_cons]
    congr 1
    omega

end

/-- What the callback does with a record of the content: it is sent, and counted if that is good. -/
structure Printed (ctx : SpoolCtx) (line : Text) (t : List SpoolEvent) (r : Int × SpoolCtx) : Prop where
  good : 0 ≤ r.1 → ¬ sendFailed t ∧ sentRecords t = [line] ∧
    r.2.limit = ctx.limit ∧ r.2.jclin = ctx.jclin ∧ r.2.count = ctx.count + 1
  bad : r.1 < 0 → sendFailed t ∧ sentRecords t <+: [line]

theorem printRecord_every (ctx : SpoolCtx) (line : Text) :
    (printRecord ctx line).Every (Printed ctx line) := by
  intro rc
  constructor
  · intro hrc
    have hrc : 0 ≤ rc := hrc
    refine ⟨?_, rfl, ?_⟩
    · rintro ⟨e, he, hneg⟩
      obtain rfl := List.mem_singleton.mp he
      exact Int.not_lt.mpr hrc hneg
    · simp only [hrc, if_true, and_self]
  · intro hrc
    exact ⟨⟨_, List.mem_cons_self, hrc⟩, List.prefix_rfl⟩

theorem doPrintSysoutLine_stop {ctx : SpoolCtx} (hlimit : ctx.limit ≠ 0)
    (hcount : ctx.limit ≤ ctx.count) (line : Text) :
    doPrintSysoutLine ctx line = .ret (RC_SPOOL_CAP, ctx) := by
  rw [doPrintSysoutLine, spoolLineAction, if_pos ⟨hlimit, hcount⟩]

section

variable {ctx : SpoolCtx} {line : Text} (hroom : ctx.limit = 0 ∨ ctx.count < ctx.limit)
include hroom

theorem doPrintSysoutLine_skip (hline : isContent ctx.jclin line = false) :
    doPrintSysoutLine ctx line = .ret (0, ctx) := by
  rw [doPrintSysoutLine, spoolLineAction_room hroom, hline]
  rfl

theorem doPrintSysoutLine_emit (hline : isContent ctx.jclin line = true) :
    (doPrintSysoutLine ctx line).Every (Printed ctx line) := by
  rw [doPrintSysoutLine, spoolLineAction_room hroom, hline]
  simp only [if_true]
  split
  · exact printRecord_every ctx line
  · intro rc
    dsimp only
    by_cases hrc : rc < 0
    · rw [if_pos hrc]
      refine ⟨fun hpos => absurd hrc (Int.not_lt.mpr hpos), fun _ => ⟨⟨_, List.mem_cons_self, hrc⟩, ?_⟩⟩
      exact List.nil_prefix
    · rw [if_neg hrc]
      refine (printRecord_every _ line).imp fun t r h => ⟨fun hpos => ?_, fun hneg => ?_⟩
      · obtain ⟨hgood, hsent, hctx⟩ := h.good hpos
        refine ⟨?_, hsent, hctx⟩
        rintro ⟨e, he, hneg⟩
        rcases List.mem_cons.mp he with rfl | he
        · exact hrc hneg
        · exact hgood ⟨e, he, hneg⟩
      · obtain ⟨⟨e, he, hlt⟩, hsent⟩ := h.bad hneg
        exact ⟨⟨e, List.mem_cons_of_mem _ he, hlt⟩, hsent⟩

end

theorem sentRecords_append (t t' : List SpoolEvent) :
    sentRecords (t ++ t') = sentRecords t ++ sentRecords t' := by
  induction t with
  | nil => rfl
  | cons e t ih =>
    obtain ⟨c, rc⟩ := e
    cases c with
    | headers => exact ih
    | printf line => exact congrArg (line :: ·) ih

theorem sendFailed_append {t t' : List SpoolEvent} :
    sendFailed (t ++ t') ↔ sendFailed t ∨ sendFailed t' := by
  simp only [sendFailed, List.mem_append, or_and_right, exists_or]

/-- What is sent of the records is a beginning of the content, and all of it if no send fails. -/
def Sends (wanted : List Text) (t : List SpoolEvent) : Prop :=
  sentRecords t <+: wanted ∧ (¬ sendFailed t → sentRecords t = wanted)

/-- Behind a record that went out. -/
theorem Sends.cons {line : Text} {wanted : List Text} {t t' : List SpoolEvent}
    (ht : sentRecords t = [line]) (h : Sends wanted t') :
    Sends (line :: wanted) (t ++ t') := by
  rw [Sends, sentRecords_append, ht, sendFailed_append]
  refine ⟨List.cons_prefix_cons.mpr ⟨rfl, h.1⟩, fun hno => ?_⟩
  rw [h.2 fun hfail => hno (Or.inr hfail)]
  rfl

/-- What a call of the callback comes to. -/
theorem doPrintSysoutLine_run {ctx ctx' : SpoolCtx} {line : Text} {t : List SpoolEvent} {rc : Int}
    (h : Prog.Run (doPrintSysoutLine ctx line) t (rc, ctx')) :
    (ctx.limit ≠ 0 ∧ ctx.limit ≤ ctx.count ∧ t = [] ∧ rc < 0) ∨
      (ctx.limit = 0 ∨ ctx.count < ctx.limit) ∧
        (isContent ctx.jclin line = false ∧ t = [] ∧ rc = 0 ∧ ctx' = ctx ∨
          isContent ctx.jclin line = true ∧ Printed ctx line t (rc, ctx')) := by
  by_cases hcap : ctx.limit ≠ 0 ∧ ctx.limit ≤ ctx.count
  · left
    rw [doPrintSysoutLine_stop hcap.1 hcap.2] at h
    cases h
    exact ⟨hcap.1, hcap.2, rfl, by decide⟩
  · right
    have hroom : ctx.limit = 0 ∨ ctx.count < ctx.limit := by omega
    refine ⟨hroom, ?_⟩
    cases hline : isContent ctx.jclin line with
    | false =>
      rw [doPrintSysoutLine_skip hroom hline] at h
      cases h
      exact Or.inl ⟨rfl, rfl, rfl, rfl⟩
    | true =>
      exact Or.inr ⟨rfl, Prog.every_iff.mp (doPrintSysoutLine_emit hroom hline) t _ h⟩

/-- What a walk sends. -/
theorem SpoolWalked.sends {ctx ctx' : SpoolCtx} {lines : List Text} {t : List SpoolEvent}
    (h : SpoolWalked doPrintSysoutLine ctx lines t ctx') :
    Sends (content ctx.jclin ctx.limit ctx.count lines) t := by
  induction h with
  | ended =>
    rename_i ctx
    have hnil : content ctx.jclin ctx.limit ctx.count [] = [] := by
      rw [content]
      split
      · rfl
      · exact List.take_nil
    rw [hnil]
    exact ⟨List.prefix_rfl, fun _ => rfl⟩
  | stopped call negative =>
    rcases doPrintSysoutLine_run call with ⟨hlimit, hcount, rfl, -⟩ | ⟨hroom, hskip | ⟨hline, hprint⟩⟩
    · rw [content_capped hlimit hcount]
      exact ⟨List.prefix_rfl, fun _ => rfl⟩
    · exact absurd negative (by rw [hskip.2.2.1]; decide)
    · -- the send has failed
      obtain ⟨hfail, hsent⟩ := hprint.bad negative
      rw [content_emit hroom hline]
      exact ⟨hsent.trans (List.cons_prefix_cons.mpr ⟨rfl, List.nil_prefix⟩),
        fun hno => absurd hfail hno⟩
  | goes call positive rest ih =>
    rcases doPrintSysoutLine_run call with
      ⟨-, -, -, negative⟩ | ⟨hroom, ⟨hline, rfl, rfl, rfl⟩ | ⟨hline, hprint⟩⟩
    · exact absurd positive (Int.not_le.mpr negative)
    · rw [content_skip hline]
      exact ih
    · obtain ⟨-, hsent, hlimit, hjclin, hcount⟩ := hprint.good positive
      simp only at hlimit hjclin hcount
      rw [hlimit, hjclin, hcount] at ih
      rw [content_emit hroom hline]
      exact ih.cons hsent

/-- The walk without a send that fails is the one of the listing. -/
theorem printLines_eq (jclin : Bool) (limit : Nat) (lines : List Text) (count : Nat) :
    (printLines jclin limit count lines).1 = (content jclin limit count lines).map printedLine := by
  induction lines generalizing count with
  | nil =>
    rw [printLines, content]
    split
    · rfl
    · rw [List.filter_nil, List.take_nil, List.map_nil]
  | cons line lines ih =>
    rw [printLines]
    by_cases hcap : limit ≠ 0 ∧ limit ≤ count
    · rw [content_capped hcap.1 hcap.2, spoolLineAction, if_pos hcap]
      rfl
    · have hroom : limit = 0 ∨ count < limit := by omega
      rw [spoolLineAction_room hroom]
      cases hline : isContent jclin line with
      | false =>
        rw [content_skip hline]
        exact ih count
      | true =>
        rw [content_emit hroom hline, List.map_cons, ← ih (count + 1)]
        rfl

/-- **The records of a data set.** Of the JCL input data set the statements are sent, of any other one
all records: the first `limit` of them if there is a limit. No other record is sent, and they are all
sent unless a send fails; then those in front of it are. -/
theorem jesprint_content {jesprint : SpoolPrint} (hjesprint : jesprint.HandsOver)
    (jclin headersSent : Bool) (limit total : Nat) (lines : List Text) :
    let wanted :=
      let content := if jclin then lines.filter (·.head? == some '/') else lines
      if limit = 0 then content else content.take limit
    (∀ t r, Prog.Run (jesprint doPrintSysoutLine ⟨headersSent, limit, 0, total, jclin⟩ lines) t r →
      sentRecords t <+: wanted ∧ ((∀ e ∈ t, 0 ≤ e.2) → sentRecords t = wanted)) ∧
      (printLines jclin limit 0 lines).1 = wanted.map printedLine := by
  intro wanted
  have hwanted : wanted = content jclin limit 0 lines := by
    cases jclin with
    | false =>
      have hall : lines.filter (isContent false) = lines := List.filter_eq_self.mpr fun _ _ => rfl
      simp only [wanted, content, hall, Bool.false_eq_true, if_false, Nat.sub_zero]
    | true => rfl
  rw [hwanted]
  refine ⟨fun t r hrun => ?_, printLines_eq jclin limit lines 0⟩
  obtain ⟨hstart, hall⟩ := (hjesprint hrun).sends
  refine ⟨hstart, fun hgood => hall ?_⟩
  rintro ⟨e, he, hneg⟩
  exact Int.not_lt.mpr (hgood e he) hneg

/-- A reader that calls for one record behind the other. -/
def printEach (callback : SpoolCallback) (ctx : SpoolCtx) :
    List Text → Prog SpoolSend SpoolSend.Ans (Int × SpoolCtx)
  | [] => .ret (0, ctx)
  | line :: lines =>
    (callback ctx line).bind fun (rc, ctx) =>
      if rc < 0 then .ret (rc, ctx) else printEach callback ctx lines

theorem printEach_handsOver : SpoolPrint.HandsOver printEach := by
  intro callback ctx lines t r hrun
  have hevery (lines : List Text) (ctx : SpoolCtx) :
      (printEach callback ctx lines).Every fun t r => SpoolWalked callback ctx lines t r.2 := by
    induction lines generalizing ctx with
    | nil => exact .ended
    | cons line lines ih =>
      rw [printEach]
      refine Prog.every_bind.mpr (Prog.every_iff.mpr fun t r hcall => ?_)
      obtain ⟨rc, ctx'⟩ := r
      by_cases hrc : rc < 0
      · simp only [hrc, if_true]
        show SpoolWalked callback ctx (line :: lines) (t ++ []) ctx'
        rw [List.append_nil]
        exact .stopped hcall hrc
      · simp only [hrc, if_false]
        exact (ih ctx').imp fun t' r' h => .goes hcall (Int.not_lt.mp hrc) h
  exact Prog.every_iff.mp (hevery lines ctx) t r hrun

/-- A pointer record between two statements, and a limit of two. -/
theorem jesprint_content_pointer :
    let lines : List Text := [['/', 'A'], ['e'], ['/', 'B'], ['/', 'C']]
    let t : List SpoolEvent := [⟨.headers, 0⟩, ⟨.printf ['/', 'A'], 0⟩, ⟨.printf ['/', 'B'], 0⟩]
    sentRecords t = [['/', 'A'], ['/', 'B']] ∧
      sentRecords t <+: (lines.filter (·.head? == some '/')).take 2 := by
  intro lines t
  have hrun : Prog.Run (printEach doPrintSysoutLine ⟨false, 2, 0, 0, true⟩ lines) t
      (RC_SPOOL_CAP, ⟨true, 2, 2, 2, true⟩) :=
    .call (.call (.call .ret))
  have h := (jesprint_content printEach_handsOver true false 2 0 lines).1 t _ hrun
  exact ⟨rfl, h.1⟩

end Mvsmf
