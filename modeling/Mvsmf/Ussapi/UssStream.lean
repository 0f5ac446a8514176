import Mvsmf.Common.SendAll
import Mvsmf.Lib.Loop
import Mvsmf.Ussapi.UssWrite

/-!
# Streaming a file

`uss_stream_file` with the services `ussGetHandler` gives it: it reads a piece of the file, translates
it and sends it, until a read gets nothing. Whether that was the end of the file only the handle says.
libufs is what its calls are documented to be, the socket is anything that answers `send_bytes`.
-/

namespace Mvsmf

universe u v

/-- libufs on a file open for reading. `rest` is the file behind the read cursor. -/
structure UfsReader (φ : Type u) where
  fread : φ → Nat → List UInt8 × φ
  ferror : φ → Int
  feof : φ → Bool
  error : φ → Int
  rest : φ → List UInt8
  fread_le : ∀ f len, (fread f len).1.length ≤ len
  fread_rest : ∀ f len, rest f = (fread f len).1 ++ rest (fread f len).2
  feof_rest : ∀ f, feof f = true → rest f = []

/-- The end of the file, as the handle has it. -/
def UfsReader.AtEnd {φ : Type u} (u : UfsReader φ) (f : φ) : Prop :=
  u.ferror f = 0 ∧ u.feof f = true

/-- `USS_GET_CTX`: the file, the socket, what it took so far, and whether the response was given up. -/
structure GetCtx (φ : Type u) (τ : Type v) where
  fp : φ
  socket : τ
  wire : List UInt8
  aborted : Bool

/-- What `uss_stream_file` leaves. -/
structure StreamOut (φ : Type u) (τ : Type v) where
  rc : Int
  readRc : Int
  ctx : GetCtx φ τ

section Stream

variable {φ : Type u} {τ : Type v} (u : UfsReader φ) (world : Prog.World SendOp SendOp.Ans τ)

/-! ## The services -/

def abortResponse (c : GetCtx φ τ) : GetCtx φ τ := { c with aborted := true }

/-- `uss_get_send`, that is `send_all`. -/
def ussGetSend (c : GetCtx φ τ) (buf : List UInt8) : Int × GetCtx φ τ :=
  let (t, rc, socket) := (sendBytes buf).exec world c.socket
  let c := { c with socket := socket, wire := c.wire ++ accepted t }
  (rc, if rc < 0 then abortResponse c else c)

/-- `uss_get_failed` -/
def ussGetFailed (c : GetCtx φ τ) : Int :=
  if u.ferror c.fp = 0 ∧ u.feof c.fp = true then UFSD_RC_OK
  else if u.error c.fp ≠ UFSD_RC_OK then u.error c.fp
  else UFSD_RC_IO

/-- `http_xlate` with a table, or nothing for a binary transfer. -/
def translated (xlate : Option (UInt8 → UInt8)) (bs : List UInt8) : List UInt8 :=
  match xlate with
  | some table => bs.map table
  | none => bs

/-! ## The loop -/

def ussStreamFile (xlate : Option (UInt8 → UInt8)) (bufsz : Nat) :
    Loop (GetCtx φ τ) (StreamOut φ τ) where
  step c :=
    let (buf, fp) := u.fread c.fp bufsz
    let c := { c with fp := fp }
    if buf = [] then
      let readRc := ussGetFailed u c
      .inr ⟨if readRc ≠ 0 then -1 else 0, readRc, c⟩
    else
      let (rc, c) := ussGetSend world c (translated xlate buf)
      if rc < 0 then .inr ⟨-1, 0, c⟩ else .inl c
  measure c := (u.rest c.fp).length
  lowers := by
    intro c c' h
    have hrest := congrArg List.length (u.fread_rest c.fp bufsz)
    rw [List.length_append] at hrest
    rcases hread : u.fread c.fp bufsz with ⟨buf, fp⟩
    rw [hread] at hrest
    simp only [hread] at h
    split at h
    · cases h
    · next hbuf =>
      have hpos := List.length_pos_of_ne_nil hbuf
      split at h
      · cases h
      · cases h
        have hfp : (ussGetSend world { c with fp := fp } (translated xlate buf)).2.fp = fp := by
          unfold ussGetSend
          dsimp only
          split <;> rfl
        rw [hfp]
        dsimp only at hrest
        omega

/-- The end of `ussGetHandler`, with the result of the loop. -/
def ussGetBody (xlate : Option (UInt8 → UInt8)) (bufsz : Nat) (c : GetCtx φ τ) : Int × GetCtx φ τ :=
  let out := (ussStreamFile u world xlate bufsz).exec c
  if out.readRc ≠ 0 then (-1, abortResponse out.ctx) else (out.rc, out.ctx)

/-! ## What is sent -/

theorem sendFrom_rc (bs : List UInt8) (stall : Nat) :
    (sendFrom bs stall).Every fun _ rc => rc = 0 ∨ rc = -1 := by
  induction bs, stall using sendFrom.induct with
  | case1 stall =>
    rw [sendFrom, if_pos rfl]
    exact .inl rfl
  | case2 bs stall hbs ihtook ihpause =>
    rw [sendFrom, if_neg hbs]
    rintro (_ | n)
    · exact .inr rfl
    · by_cases hn : 0 < n.val
      · simp only [hn, if_true]
        exact ihtook n hn
      · simp only [hn, if_false]
        rintro (_ | _)
        · rintro (_ | _)
          · by_cases hmax : SEND_STALL_MAX < stall + 1
            · rw [if_pos hmax]
              exact fun _ => .inr rfl
            · rw [if_neg hmax]
              exact fun _ => ihpause n hmax
          · exact .inr rfl
        · exact .inr rfl

/-- What the socket takes of a buffer, and the result that says whether it is all. -/
theorem sendBytes_sent (buf : List UInt8) :
    (sendBytes buf).Every fun t rc =>
      accepted t <+: buf ∧ (rc = 0 ↔ accepted t = buf) ∧ (rc = 0 ∨ rc = -1) := by
  unfold sendBytes
  split
  · next hbuf => exact ⟨List.nil_prefix, iff_of_true rfl hbuf.symm, .inl rfl⟩
  · next hbuf =>
    rintro (_ | _)
    · have hrun := (sendFrom_run buf 0 (Nat.zero_le _)).and (sendFrom_rc buf 0)
      exact hrun.imp fun t rc h => ⟨h.1.taken, h.1.ok_iff, h.2⟩
    · exact ⟨List.nil_prefix, iff_of_false (by decide) fun h => hbuf h.symm, .inr rfl⟩

theorem ussGetSend_spec (c : GetCtx φ τ) (buf : List UInt8) :
    ∃ socket w, w <+: buf ∧
      (ussGetSend world c buf = (0, { c with socket := socket, wire := c.wire ++ w }) ∧ w = buf ∨
        ussGetSend world c buf = (-1, ⟨c.fp, socket, c.wire ++ w, true⟩) ∧ w ≠ buf) := by
  have hrun := Prog.exec_run world (sendBytes buf) c.socket
  unfold ussGetSend
  rcases hexec : (sendBytes buf).exec world c.socket with ⟨t, rc, socket⟩
  rw [hexec] at hrun
  obtain ⟨hpart, hok, hrc⟩ := Prog.every_iff.mp (sendBytes_sent buf) t rc hrun
  refine ⟨socket, accepted t, hpart, ?_⟩
  rcases hrc with rfl | rfl
  · exact .inl ⟨rfl, hok.mp rfl⟩
  · exact .inr ⟨rfl, fun hall => absurd (hok.mpr hall) (by decide)⟩

theorem ussGetFailed_eq_zero (c : GetCtx φ τ) : ussGetFailed u c = 0 ↔ u.AtEnd c.fp := by
  unfold ussGetFailed
  split
  · next hend => exact iff_of_true rfl hend
  · next hend =>
    refine iff_of_false ?_ hend
    split
    · next herror => exact herror
    · decide

/-! ## Runs -/

variable (xlate : Option (UInt8 → UInt8)) (bufsz : Nat)

/-- What a run leaves that starts in `c`. -/
structure Streamed (c : GetCtx φ τ) (out : StreamOut φ τ) : Prop where
  wire : ∃ w, out.ctx.wire = c.wire ++ w ∧ w <+: translated xlate (u.rest c.fp)
  whole : out.rc = 0 ↔
    out.ctx.wire = c.wire ++ translated xlate (u.rest c.fp) ∧ u.AtEnd out.ctx.fp
  codes : out.rc = 0 ∧ out.readRc = 0 ∨ out.rc = -1
  aborted : out.ctx.aborted = true ↔ c.aborted = true ∨ out.rc ≠ 0 ∧ out.readRc = 0

theorem translated_append (bs cs : List UInt8) :
    translated xlate (bs ++ cs) = translated xlate bs ++ translated xlate cs := by
  cases xlate with
  | none => rfl
  | some table => exact List.map_append

/-- One turn: the reads have ended, the piece was sent, or the send failed within it. -/
theorem ussStreamFile_step (c : GetCtx φ τ) {buf : List UInt8} {fp : φ}
    (hread : u.fread c.fp bufsz = (buf, fp)) :
    (buf = [] ∧ ∃ rc readRc, (ussStreamFile u world xlate bufsz).step c =
        .inr ⟨rc, readRc, { c with fp := fp }⟩ ∧
        (u.AtEnd fp ∧ rc = 0 ∧ readRc = 0 ∨ ¬u.AtEnd fp ∧ rc = -1 ∧ readRc ≠ 0)) ∨
      (∃ socket, (ussStreamFile u world xlate bufsz).step c =
        .inl ⟨fp, socket, c.wire ++ translated xlate buf, c.aborted⟩) ∨
      ∃ socket w, w <+: translated xlate buf ∧ w ≠ translated xlate buf ∧
        (ussStreamFile u world xlate bufsz).step c =
          .inr ⟨-1, 0, ⟨fp, socket, c.wire ++ w, true⟩⟩ := by
  by_cases hbuf : buf = []
  · let ended : GetCtx φ τ := { c with fp := fp }
    have hfailed : ussGetFailed u ended = 0 ↔ u.AtEnd fp := ussGetFailed_eq_zero u ended
    have hstep : (ussStreamFile u world xlate bufsz).step c =
        .inr ⟨if ussGetFailed u ended ≠ 0 then -1 else 0, ussGetFailed u ended, ended⟩ := by
      simp only [ussStreamFile, hread, if_pos hbuf, ended]
    refine .inl ⟨hbuf, _, _, hstep, ?_⟩
    by_cases hend : u.AtEnd fp
    · rw [hfailed.mpr hend]
      exact .inl ⟨hend, rfl, rfl⟩
    · have hne := mt hfailed.mp hend
      exact .inr ⟨hend, if_pos hne, hne⟩
  · obtain ⟨socket, w, hpart, ⟨hsend, rfl⟩ | ⟨hsend, hne⟩⟩ :=
      ussGetSend_spec world { c with fp := fp } (translated xlate buf)
    · refine .inr (.inl ⟨socket, ?_⟩)
      simp only [ussStreamFile, hread, if_neg hbuf, hsend]
      rfl
    · refine .inr (.inr ⟨socket, w, hpart, hne, ?_⟩)
      simp only [ussStreamFile, hread, if_neg hbuf, hsend]
      rfl

theorem ussStreamFile_streamed (c : GetCtx φ τ) :
    Streamed u xlate c ((ussStreamFile u world xlate bufsz).exec c) := by
  refine (ussStreamFile u world xlate bufsz).rule (P := Streamed u xlate) ?_ ?_ c
  · intro c out hstep
    have hneg : (-1 : Int) ≠ 0 := by decide
    have hrest := u.fread_rest c.fp bufsz
    rcases hread : u.fread c.fp bufsz with ⟨buf, fp⟩
    rw [hread] at hrest
    rcases ussStreamFile_step u world xlate bufsz c hread with
      ⟨rfl, rc, readRc, hend, hcodes⟩ | ⟨socket, hsent⟩ | ⟨socket, w, hpart, hcut, hfail⟩
    · -- nothing was read
      rw [hend] at hstep
      cases hstep
      rcases hcodes with ⟨hatEnd, rfl, rfl⟩ | ⟨hatEnd, rfl, hne⟩
      · have hnil : u.rest c.fp = [] := hrest.trans (u.feof_rest fp hatEnd.2)
        have hwire : c.wire = c.wire ++ translated xlate (u.rest c.fp) := by
          rw [hnil]
          cases xlate <;> exact (List.append_nil _).symm
        exact ⟨⟨[], (List.append_nil _).symm, List.nil_prefix⟩, iff_of_true rfl ⟨hwire, hatEnd⟩,
          .inl ⟨rfl, rfl⟩, by simp⟩
      · refine ⟨⟨[], (List.append_nil _).symm, List.nil_prefix⟩, ?_, .inr rfl, by simp [hne]⟩
        exact iff_of_false hneg fun h => hatEnd h.2
    · rw [hsent] at hstep
      cases hstep
    · -- the send failed within the piece
      rw [hfail] at hstep
      cases hstep
      have hpiece : translated xlate (u.rest c.fp) =
          translated xlate buf ++ translated xlate (u.rest fp) := by
        rw [hrest, translated_append]
      refine ⟨⟨w, rfl, ?_⟩, iff_of_false hneg fun h => ?_, .inr rfl, by simp⟩
      · rw [hpiece]
        exact hpart.trans (List.prefix_append _ _)
      · have hall := List.append_cancel_left h.1
        rw [hpiece] at hall
        exact hcut (hpart.eq_of_length_le (by rw [hall, List.length_append]; omega))
  · intro c c' hstep ih
    have hrest := u.fread_rest c.fp bufsz
    rcases hread : u.fread c.fp bufsz with ⟨buf, fp⟩
    rw [hread] at hrest
    rcases ussStreamFile_step u world xlate bufsz c hread with
      ⟨-, rc, readRc, hend, -⟩ | ⟨socket, hsent⟩ | ⟨socket, w, -, -, hfail⟩
    · rw [hend] at hstep
      cases hstep
    · rw [hsent] at hstep
      cases hstep
      have hpiece : c.wire ++ translated xlate (u.rest c.fp) =
          c.wire ++ translated xlate buf ++ translated xlate (u.rest fp) := by
        rw [hrest, translated_append, List.append_assoc]
      obtain ⟨⟨w, hw, hpart⟩, hwhole, hcodes, haborted⟩ := ih
      refine ⟨⟨translated xlate buf ++ w, ?_, ?_⟩, ?_, hcodes, haborted⟩
      · rw [hw, List.append_assoc]
      · rw [hrest, translated_append]
        exact (List.prefix_append_right_inj _).mpr hpart
      · rw [hwhole, hpiece]
    · rw [hfail] at hstep
      cases hstep

/-- **Streaming a file.** Whatever the reads and the socket do, what is sent is a beginning of the
translated file; the result is 0 exactly if all of it is sent and the last read is the end of the file
to its handle; and the handler gives the response up exactly if its result is not 0. -/
theorem ussStreamFile_whole (c : GetCtx φ τ) :
    let out := (ussStreamFile u world xlate bufsz).exec c
    let content := translated xlate (u.rest c.fp)
    (∃ w, out.ctx.wire = c.wire ++ w ∧ w <+: content) ∧
      (out.rc = 0 ↔ out.ctx.wire = c.wire ++ content ∧ u.AtEnd out.ctx.fp) ∧
      (out.rc = 0 ∧ out.readRc = 0 ∨ out.rc = -1) ∧
      ((ussGetBody u world xlate bufsz c).2.aborted = true ↔
        c.aborted = true ∨ (ussGetBody u world xlate bufsz c).1 ≠ 0) := by
  intro out content
  obtain ⟨hwire, hwhole, hcodes, haborted⟩ := ussStreamFile_streamed u world xlate bufsz c
  refine ⟨hwire, hwhole, hcodes, ?_⟩
  have hbody : ussGetBody u world xlate bufsz c =
      if out.readRc ≠ 0 then (-1, abortResponse out.ctx) else (out.rc, out.ctx) := rfl
  rw [hbody]
  by_cases hread : out.readRc = 0
  · rw [if_neg (not_not.mpr hread), haborted]
    exact or_congr_right ⟨fun h => h.1, fun h => ⟨h, hread⟩⟩
  · rw [if_pos hread]
    exact iff_of_true rfl (.inr (show (-1 : Int) ≠ 0 by decide))

end Stream

/-! ## A read that fails behind the last byte -/

/-- A file of which every byte can be read; whether its end is seen, or the read there fails. -/
structure ScriptedFile where
  rest : List UInt8
  fails : Bool
  ended : Bool
  deriving DecidableEq, Repr

def scriptedReader : UfsReader ScriptedFile where
  fread f len :=
    if f.rest = [] then ([], { f with ended := !f.fails })
    else (f.rest.take len, { f with rest := f.rest.drop len })
  ferror f := if f.fails && f.rest.isEmpty then -1 else 0
  feof f := f.ended && f.rest.isEmpty
  error f := if f.fails && f.rest.isEmpty then -1 else 0
  rest := ScriptedFile.rest
  fread_le f len := by
    split
    · exact Nat.zero_le _
    · rw [List.length_take]
      exact Nat.min_le_left _ _
  fread_rest f len := by
    split
    · rfl
    · exact (List.take_append_drop len f.rest).symm
  feof_rest f h := by
    rw [Bool.and_eq_true] at h
    exact List.isEmpty_iff.mp h.2

/-- A socket that takes all it is offered. -/
def openSocket : Prog.World SendOp SendOp.Ans Unit
  | .send bs, s => (some (Fin.last bs.length), s)
  | .pause, s => ((), s)
  | .dead, s => (false, s)
  | .stopping, s => (false, s)
  | .giveup _, s => ((), s)

theorem sendBytes_one (b : UInt8) :
    (sendBytes [b]).exec openSocket () = ([⟨.dead, false⟩, ⟨.send [b], some 1⟩], 0, ()) := by
  have hnil : (sendFrom [] 0).exec openSocket () = ([], 0, ()) := by
    rw [sendFrom, if_pos rfl]
    rfl
  have hone : (sendFrom [b] 0).exec openSocket () = ([⟨.send [b], some 1⟩], 0, ()) := by
    rw [sendFrom, if_neg (List.cons_ne_nil b [])]
    show (⟨.send [b], some 1⟩ :: ((sendFrom [] 0).exec openSocket ()).1,
      ((sendFrom [] 0).exec openSocket ()).2) = _
    rw [hnil]
  rw [sendBytes, if_neg (List.cons_ne_nil b [])]
  show (⟨.dead, false⟩ :: ((sendFrom [b] 0).exec openSocket ()).1,
    ((sendFrom [b] 0).exec openSocket ()).2) = _
  rw [hone]

/-- All bytes are sent, and the result is not 0. -/
theorem ussStreamFile_endFails :
    let out := (ussStreamFile scriptedReader openSocket none 4096).exec
      ⟨⟨[0xC1], true, false⟩, (), [], false⟩
    out.ctx.wire = [0xC1] ∧ out.rc = -1 := by
  let ended (wire : List UInt8) : GetCtx ScriptedFile Unit := ⟨⟨[], true, false⟩, (), wire, false⟩
  let loop := ussStreamFile scriptedReader openSocket none 4096
  have hsent : ussGetSend openSocket (ended []) [0xC1] = (0, ended [0xC1]) := by
    rw [ussGetSend, sendBytes_one]
    rfl
  have hfirst : loop.step ⟨⟨[0xC1], true, false⟩, (), [], false⟩ = .inl (ended [0xC1]) := by
    have hstep : loop.step ⟨⟨[0xC1], true, false⟩, (), [], false⟩ =
        if (ussGetSend openSocket (ended []) [0xC1]).1 < 0 then
          .inr ⟨-1, 0, (ussGetSend openSocket (ended []) [0xC1]).2⟩
        else .inl (ussGetSend openSocket (ended []) [0xC1]).2 := rfl
    rw [hstep, hsent]
    rfl
  have hsecond : loop.step (ended [0xC1]) = .inr ⟨-1, -1, ended [0xC1]⟩ := rfl
  intro out
  have hout : out = ⟨-1, -1, ended [0xC1]⟩ := (loop.exec_next hfirst).trans (loop.exec_done hsecond)
  rw [hout]
  exact ⟨rfl, rfl⟩

end Mvsmf
