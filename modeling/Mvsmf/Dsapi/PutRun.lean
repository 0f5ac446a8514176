import Mvsmf.Dsapi.Put

/-!
# What a PUT does with the bytes it gets

The loops of the PUT handlers read the body in bulk or byte by byte, in chunks or by length. Here
they are brought to one form: the bytes the framing delivers, each with what the client has still
to send behind it, are put through one framer whose records go to the target, and then the body is
concluded. `Received` says which bytes are delivered and how the body ends, `outcome` what becomes
of them, and `putBody_eq` is the connection to the handlers' text.
-/

namespace Mvsmf

/-! ## Delivered bytes -/

/-- The next `n` bytes, each with what stands behind it. -/
def tagged : Nat → List UInt8 → List (UInt8 × List UInt8)
  | 0, _ => []
  | _, [] => []
  | n + 1, b :: s => (b, s) :: tagged n s

@[simp] theorem tagged_zero (s : List UInt8) : tagged 0 s = [] := by
  cases s <;> rfl

@[simp] theorem tagged_nil (n : Nat) : tagged n [] = [] := by
  cases n <;> rfl

theorem tagged_fst : ∀ (n : Nat) (s : List UInt8), (tagged n s).map Prod.fst = s.take n
  | 0, s => by simp
  | _ + 1, [] => rfl
  | n + 1, b :: s => by rw [tagged, List.map_cons, tagged_fst n s, List.take_succ_cons]

theorem tagged_add : ∀ (m n : Nat) (s : List UInt8),
    tagged (m + n) s = tagged m s ++ tagged n (s.drop m)
  | 0, n, s => by simp
  | m + 1, n, [] => by simp
  | m + 1, n, b :: s => by
    rw [Nat.succ_add, tagged, tagged, tagged_add m n s, List.drop_succ_cons, List.cons_append]

/-- How a body ends: an error in the middle, the last size line with what is behind it, or all of
the declared length. -/
inductive Ending
  | cut (message : String)
  | last (rest : List UInt8)
  | all (rest : List UInt8)
  deriving DecidableEq, Repr

/-- The data bytes the chunk loop takes from a stream, and how it ends. -/
inductive Delivers (cp : HttpCp) :
    List UInt8 → List (UInt8 × List UInt8) → Ending → Prop
  | noLine {s line : List UInt8} {c : Conn} (hl : sizeLine ⟨s, []⟩ = (line, .closed, c)) :
      Delivers cp s [] (.cut "Error reading chunk size")
  | zero {s line : List UInt8} {e : LineEnd} {c : Conn} (hl : sizeLine ⟨s, []⟩ = (line, e, c))
      (he : e ≠ .closed) (hv : sizeValue cp line = 0) : Delivers cp s [] (.last c.unread)
  | short {s line : List UInt8} {e : LineEnd} {c : Conn} (hl : sizeLine ⟨s, []⟩ = (line, e, c))
      (he : e ≠ .closed) (hv : sizeValue cp line ≠ 0)
      (hd : c.unread.length < sizeValue cp line) :
      Delivers cp s (tagged (sizeValue cp line) c.unread) (.cut "Error reading chunk data")
  | noTrailer {s line : List UInt8} {e : LineEnd} {c : Conn}
      (hl : sizeLine ⟨s, []⟩ = (line, e, c)) (he : e ≠ .closed) (hv : sizeValue cp line ≠ 0)
      (hd : sizeValue cp line ≤ c.unread.length)
      (ht : c.unread.length < sizeValue cp line + 2) :
      Delivers cp s (tagged (sizeValue cp line) c.unread) (.cut "Error reading chunk trailer")
  | chunk {s line : List UInt8} {e : LineEnd} {c : Conn} {ds : List (UInt8 × List UInt8)}
      {e' : Ending} (hl : sizeLine ⟨s, []⟩ = (line, e, c)) (he : e ≠ .closed)
      (hv : sizeValue cp line ≠ 0) (ht : sizeValue cp line + 2 ≤ c.unread.length)
      (tail : Delivers cp (c.unread.drop (sizeValue cp line + 2)) ds e') :
      Delivers cp s (tagged (sizeValue cp line) c.unread ++ ds) e'

/-- Every stream is read in some way. -/
theorem Delivers.total (cp : HttpCp) (s : List UInt8) : ∃ ds e, Delivers cp s ds e := by
  generalize hm : s.length = m
  induction m using Nat.strongRecOn generalizing s with
  | _ m ih =>
    rcases hl : sizeLine ⟨s, []⟩ with ⟨line, e, c⟩
    by_cases he : e = .closed
    · subst he
      exact ⟨_, _, .noLine hl⟩
    by_cases hv : sizeValue cp line = 0
    · exact ⟨_, _, .zero hl he hv⟩
    have h1 : line.length + c.unread.length ≤ s.length := sizeLine_unread hl
    have h2 := sizeValue_pos hv
    rcases Nat.lt_or_ge c.unread.length (sizeValue cp line) with hd | hd
    · exact ⟨_, _, .short hl he hv hd⟩
    rcases Nat.lt_or_ge c.unread.length (sizeValue cp line + 2) with ht | ht
    · exact ⟨_, _, .noTrailer hl he hv hd ht⟩
    obtain ⟨ds, e', h⟩ := ih _ (by rw [List.length_drop]; omega)
      (c.unread.drop (sizeValue cp line + 2)) rfl
    exact ⟨_, _, .chunk hl he hv ht h⟩

/-- A stream is read in one way. -/
theorem Delivers.unique {cp : HttpCp} {s : List UInt8} {ds ds' : List (UInt8 × List UInt8)}
    {e e' : Ending} (h : Delivers cp s ds e) (h' : Delivers cp s ds' e') : ds = ds' ∧ e = e' := by
  induction h generalizing ds' with
  | noLine hl => cases h' <;> grind
  | zero hl he hv => cases h' <;> grind
  | short hl he hv hd => cases h' <;> grind
  | noTrailer hl he hv hd ht => cases h' <;> grind
  | chunk hl he hv ht tail ih => cases h' <;> grind

/-- The loop takes the body of a well-formed stream whose size lines fit, up to its last chunk. -/
theorem Delivers.ofCoded (cp : HttpCp) {s b rest : List UInt8}
    (h : Chunked.Coded Fits s b rest) :
    ∃ ds, Delivers cp s ds (.last rest) ∧ ds.map Prod.fst = b := by
  induction h with
  | @last line rest hp hl =>
    exact ⟨[], .zero (sizeLine_short hp hl.noCR (Chunked.LF :: rest)) (by decide)
      (sizeValue_short cp hl hp), rfl⟩
  | @chunk line data s b rest hp hl hd _ ih =>
    obtain ⟨ds, hds, rfl⟩ := ih
    have hv := sizeValue_short cp hl hp
    have hline := sizeLine_short hp hl.noCR (Chunked.LF :: (data ++ Chunked.CR :: Chunked.LF :: s))
    have hskip : (data ++ Chunked.CR :: Chunked.LF :: s).drop (data.length + 2) = s := by
      rw [← List.drop_drop, List.drop_left]
      rfl
    refine ⟨_ ++ ds, .chunk hline (by decide) (by simpa [hv] using hd) ?_ ?_, ?_⟩
    · simp only [hv, List.drop_succ_cons, List.drop_zero, List.length_append, List.length_cons]
      omega
    · simp only [hv, List.drop_succ_cons, List.drop_zero]
      rw [hskip]
      exact hds
    · rw [List.map_append, tagged_fst]
      simp [hv]

/-- The bytes a body delivers under its framing. -/
def Received (cp : HttpCp) (chunked : Bool) (contentLength : Nat) (s : List UInt8)
    (ds : List (UInt8 × List UInt8)) (e : Ending) : Prop :=
  if chunked then Delivers cp s ds e
  else ds = tagged contentLength s ∧
    e = if contentLength ≤ s.length then .all (s.drop contentLength)
      else .cut "Error reading data"

/-! ## The framer -/

/-- What is held between two bytes: the state of the text framer and the binary record. -/
abbrev Held := Recline × List UInt8

namespace PutJob

variable (j : PutJob)

/-- Text cut at line ends, binary data at the piece length. -/
def framer : Framer Held UInt8 (List UInt8) where
  put := fun (rl, record) b =>
    match j.dataType with
    | .binary =>
      if (record ++ [b]).length ≥ j.dcb.piece then ((rl, []), some (record ++ [b]))
      else ((rl, record ++ [b]), none)
    | _ => (((reclinePut rl b).1, record), (reclinePut rl b).2)
  flush := fun (rl, record) =>
    match j.dataType with
    | .binary => if record = [] then none else some (j.padded record)
    | _ => reclineFlush rl

/-- At the start of a body. -/
def fresh : Held := (reclineInit j.dcb.contentMax, [])

def sink (fp : Option Target) (unread record : List UInt8) : Except PutFail (Option Target) :=
  j.putRecord "Error writing record" fp unread record

/-- A binary record that is not complete. -/
def Open (h : Held) : Prop := h.2.length < j.dcb.piece

theorem framer_open {h : Held} (hp : 0 < j.dcb.piece) (ho : j.Open h) (b : UInt8) :
    j.Open (j.framer.put h b).1 := by
  obtain ⟨rl, record⟩ := h
  simp only [framer, Open] at ho ⊢
  split
  · split
    · exact hp
    · next hlt => exact Nat.lt_of_not_le hlt
  · exact ho

/-- Bytes that do not go past the piece fill the record. -/
theorem drive_fill (hb : j.dataType = .binary) : ∀ (k : Nat) (u : List UInt8) (rl : Recline)
    (record : List UInt8) (fp : Option Target), k ≤ u.length → record.length < j.dcb.piece →
    record.length + k ≤ j.dcb.piece →
    j.framer.drive j.sink (rl, record) fp (tagged k u) =
      if record.length + k = j.dcb.piece then
        (j.sink fp (u.drop k) (record ++ u.take k)).map fun fp => ((rl, []), fp)
      else .ok ((rl, record ++ u.take k), fp) := by
  intro k
  induction k with
  | zero =>
    intro u rl record fp _ hlt _
    rw [if_neg (by omega)]
    simp [Framer.drive]
  | succ k ih =>
    intro u rl record fp hk hlt hle
    obtain ⟨b, u, rfl⟩ := List.exists_cons_of_length_pos (show 0 < u.length by omega)
    rw [List.length_cons] at hk
    have hlen : (record ++ [b]).length = record.length + 1 := by simp
    have hput : j.framer.put (rl, record) b =
        if (record ++ [b]).length ≥ j.dcb.piece then ((rl, []), some (record ++ [b]))
        else ((rl, record ++ [b]), none) := by
      simp only [framer, hb]
    rw [tagged, Framer.drive, hput]
    by_cases hfull : (record ++ [b]).length ≥ j.dcb.piece
    · have h0 : k = 0 := by omega
      subst h0
      rw [if_pos hfull, if_pos (by omega)]
      simp only [tagged_zero, Framer.drive, List.drop_succ_cons, List.drop_zero,
        List.take_succ_cons, List.take_zero]
      cases j.sink fp u (record ++ [b]) <;> rfl
    · rw [if_neg hfull]
      simp only
      rw [ih u rl (record ++ [b]) fp (by omega) (by omega) (by omega), hlen]
      simp only [List.append_assoc, List.singleton_append, List.drop_succ_cons,
        List.take_succ_cons, Nat.add_assoc, Nat.add_comm 1 k]

/-- What `putData` does, told by the driven framer. -/
def DataSpec (readError : String) (n : Nat) (s : PutState)
    (r : Except PutFail PutState) : Prop :=
  match j.framer.drive j.sink (s.rl, s.record) s.fp (tagged n s.conn.unread) with
  | .error e => r = .error e
  | .ok (h, fp) =>
    if n ≤ s.conn.unread.length then
      ∃ c, c.unread = s.conn.unread.drop n ∧ r = .ok ⟨c, fp, h.1, h.2⟩
    else r = .error (readError, fp)

theorem dataSpec_next {readError : String} {n k : Nat} {s s' : PutState}
    {r : Except PutFail PutState} (hk : k ≤ s.conn.unread.length) (hkn : k ≤ n)
    (hu : s'.conn.unread = s.conn.unread.drop k)
    (hd : j.framer.drive j.sink (s.rl, s.record) s.fp (tagged k s.conn.unread) =
      .ok ((s'.rl, s'.record), s'.fp))
    (h : j.DataSpec readError (n - k) s' r) : j.DataSpec readError n s r := by
  unfold DataSpec at h ⊢
  rw [show n = k + (n - k) by omega, tagged_add, Framer.drive_append, hd]
  rw [hu] at h
  simp only
  split
  · next e hdr => rw [hdr] at h; exact h
  · next h' fp hdr =>
    rw [hdr] at h
    simp only [List.length_drop, List.drop_drop] at h
    split
    · next hle => rw [if_pos (by omega)] at h; exact h
    · next hle => rw [if_neg (by omega)] at h; exact h

theorem putBinary_exec (hb : j.dataType = .binary) (readError : String) (n : Nat) (s : PutState)
    (ho : j.Open (s.rl, s.record)) :
    j.DataSpec readError n s ((j.putBinary readError).exec (n, s)) := by
  refine (j.putBinary readError).rule (P := fun p r => j.Open (p.2.rl, p.2.record) →
    j.DataSpec readError p.1 p.2 r) ?_ ?_ (n, s) ho
  · rintro ⟨n, s⟩ r h ho
    simp only [putBinary] at h
    split at h
    · next h0 =>
      cases h
      subst h0
      simp only [DataSpec, tagged_zero, Framer.drive]
      rw [if_pos (Nat.zero_le _)]
      exact ⟨s.conn, rfl, rfl⟩
    · next h0 =>
      obtain ⟨k, hk, hku, hpos, h1, h2⟩ :=
        s.conn.receiveRawSome_spec (min n (j.dcb.piece - s.record.length))
      have hlt : s.record.length < j.dcb.piece := ho
      rw [h1] at h
      split at h
      · next hg =>
        cases h
        have hu : s.conn.unread = [] := by
          by_contra hu
          have := hpos (by omega) hu
          rw [List.take_eq_nil_iff] at hg
          rcases hg with hg | hg
          · omega
          · exact hu hg
        simp only [DataSpec, hu, tagged_nil, Framer.drive, List.length_nil]
        rw [if_neg (by omega)]
        trivial
      · next hg =>
        split at h
        · next hfull =>
          rw [List.length_append, List.length_take, Nat.min_eq_left hku] at hfull
          split at h
          · next e hs =>
            cases h
            have hfill := j.drive_fill hb k s.conn.unread s.rl s.record s.fp hku hlt (by omega)
            rw [if_pos (by omega), show j.sink s.fp (s.conn.unread.drop k)
              (s.record ++ s.conn.unread.take k) = .error e by rw [← h2]; exact hs] at hfill
            unfold DataSpec
            simp only
            rw [show n = k + (n - k) by omega, tagged_add, Framer.drive_append, hfill]
            rfl
          · cases h
        · cases h
  · rintro ⟨n, s⟩ p' h ih ho
    simp only [putBinary] at h
    split at h
    · cases h
    · next h0 =>
      obtain ⟨k, hk, hku, hpos, h1, h2⟩ :=
        s.conn.receiveRawSome_spec (min n (j.dcb.piece - s.record.length))
      have hlt : s.record.length < j.dcb.piece := ho
      rw [h1] at h
      split at h
      · cases h
      · next hg =>
        have hfill := j.drive_fill hb k s.conn.unread s.rl s.record s.fp hku hlt (by omega)
        rw [List.length_append, List.length_take, Nat.min_eq_left hku] at h
        split at h
        · next hfull =>
          split at h
          · cases h
          · next fp hs =>
            cases h
            rw [if_pos (by omega), show j.sink s.fp (s.conn.unread.drop k)
              (s.record ++ s.conn.unread.take k) = .ok fp by rw [← h2]; exact hs] at hfill
            exact j.dataSpec_next hku (by omega) h2 (hfill.trans rfl)
              (ih (Nat.lt_of_le_of_lt (Nat.zero_le _) hlt))
        · next hroom =>
          cases h
          rw [if_neg (by omega)] at hfill
          refine j.dataSpec_next hku (by omega) h2 hfill (ih ?_)
          simp only [Open, List.length_append, List.length_take]
          omega

theorem putText_exec (hb : j.dataType ≠ .binary) (readError : String) (n : Nat) (s : PutState) :
    j.DataSpec readError n s ((j.putText readError).exec (n, s)) := by
  have hput : ∀ h b, j.framer.put h b = (((reclinePut h.1 b).1, h.2), (reclinePut h.1 b).2) := by
    rintro ⟨rl, record⟩ b
    simp only [framer]
  refine (j.putText readError).rule (P := fun p r => j.DataSpec readError p.1 p.2 r) ?_ ?_ (n, s)
  · rintro ⟨n, s⟩ r h
    simp only [putText] at h
    split at h
    · next h0 =>
      cases h
      subst h0
      simp only [DataSpec, tagged_zero, Framer.drive]
      rw [if_pos (Nat.zero_le _)]
      exact ⟨s.conn, rfl, rfl⟩
    · next h0 =>
      obtain ⟨n, rfl⟩ := Nat.exists_eq_succ_of_ne_zero h0
      rcases hu : s.conn.unread with _ | ⟨b, u⟩
      · simp only [Conn.receiveRawData, hu, List.take_nil] at h
        cases h
        simp only [DataSpec, hu, tagged_nil, Framer.drive, List.length_nil]
        rw [if_neg (by omega)]
        trivial
      · simp only [Conn.receiveRawData, hu, List.take_succ_cons, List.take_zero] at h
        split at h
        · next rl rec hr =>
          split at h
          · next e hs =>
            cases h
            simp only [DataSpec, hu, tagged, Framer.drive, hput, hr]
            rw [show j.sink s.fp u rec = .error e from hs]
          · cases h
        · cases h
  · rintro ⟨n, s⟩ p' h ih
    simp only [putText] at h
    split at h
    · cases h
    · next h0 =>
      obtain ⟨n, rfl⟩ := Nat.exists_eq_succ_of_ne_zero h0
      rcases hu : s.conn.unread with _ | ⟨b, u⟩
      · simp only [Conn.receiveRawData, hu, List.take_nil] at h
        cases h
      · simp only [Conn.receiveRawData, hu, List.take_succ_cons, List.take_zero] at h
        split at h
        · next rl rec hr =>
          split at h
          · cases h
          · next fp hs =>
            cases h
            refine j.dataSpec_next (k := 1) (by simp [hu]) (by omega) (by rw [hu]) ?_ ih
            simp only [hu, tagged, Framer.drive, hput, hr]
            rw [show j.sink s.fp u rec = .ok fp from hs]
        · next rl hr =>
          cases h
          refine j.dataSpec_next (k := 1) (by simp [hu]) (by omega) (by rw [hu]) ?_ ih
          simp only [hu, tagged, Framer.drive, hput, hr]

theorem putData_exec (readError : String) (n : Nat) (s : PutState)
    (ho : j.Open (s.rl, s.record)) : j.DataSpec readError n s (j.putData readError n s) := by
  unfold putData
  split
  · next hb => exact j.putBinary_exec hb readError n s ho
  · next hb => exact j.putText_exec hb readError n s

/-! ## The end of the body -/

/-- The record still held, on the target or not. -/
def conclude (h : Held) (fp : Option Target) (unread : List UInt8) :
    Except PutFail (Option Target) :=
  match j.framer.flush h with
  | none => .ok fp
  | some rec => j.putRecord "Error writing final record" fp unread rec

/-- What becomes of the target at the end of the body, and what the client still sends then. -/
def ended (h : Held) (fp : Option Target) : Ending → Except PutFail (Option Target × List UInt8)
  | .cut message => .error (message, fp)
  | .all rest => (j.conclude h fp rest).map fun fp => (fp, rest)
  | .last rest =>
    match j.conclude h fp rest with
    | .error e => .error e
    | .ok fp =>
      if (rest.take 2).length ≠ 2 then .error ("Error reading final line ending", fp)
      else if rest.take 2 ≠ [Chunked.CR, Chunked.LF] then .error ("Final line ending not CRLF", fp)
      else .ok (fp, rest.drop 2)

/-- The delivered bytes and then the end. -/
def EndSpec (ds : List (UInt8 × List UInt8)) (e : Ending) (s : PutState)
    (r : Except PutFail PutState) : Prop :=
  match j.framer.drive j.sink (s.rl, s.record) s.fp ds with
  | .error x => r = .error x
  | .ok (h, fp) =>
    match j.ended h fp e with
    | .error x => r = .error x
    | .ok (fp', unread) => ∃ s', r = .ok s' ∧ s'.rl = h.1 ∧ s'.fp = fp' ∧ s'.conn.unread = unread

theorem putFinal_eq (s : PutState) :
    j.putFinal s = (j.conclude (s.rl, s.record) s.fp s.conn.unread).map
      fun fp => { s with fp := fp } := by
  have hf : j.heldRecord s = j.framer.flush (s.rl, s.record) := rfl
  unfold putFinal conclude
  rw [hf]
  cases j.framer.flush (s.rl, s.record) with
  | none => rfl
  | some rec =>
    simp only
    cases j.putRecord "Error writing final record" s.fp s.conn.unread rec <;> rfl

theorem putLast_spec (s : PutState) :
    j.EndSpec [] (.last s.conn.unread) s (j.putLast s) := by
  unfold EndSpec putLast
  simp only [Framer.drive, ended]
  rw [putFinal_eq]
  cases j.conclude (s.rl, s.record) s.fp s.conn.unread with
  | error x => rfl
  | ok fp =>
    simp only [Except.map, Conn.receiveRawData]
    by_cases h1 : (s.conn.unread.take 2).length ≠ 2
    · simp only [if_pos h1]
      exact if_pos h1
    · by_cases h2 : s.conn.unread.take 2 ≠ [Chunked.CR, Chunked.LF]
      · simp only [if_neg h1, if_pos h2]
        exact (if_neg h1).trans (if_pos h2)
      · simp only [if_neg h1, if_neg h2]
        exact ⟨_, (if_neg h1).trans (if_neg h2), rfl, rfl, rfl⟩

/-- A data part that came through, then the rest. -/
theorem endSpec_append {ds ds' : List (UInt8 × List UInt8)} {e : Ending} {s s' : PutState}
    {r : Except PutFail PutState}
    (hd : j.framer.drive j.sink (s.rl, s.record) s.fp ds = .ok ((s'.rl, s'.record), s'.fp))
    (h : j.EndSpec ds' e s' r) : j.EndSpec (ds ++ ds') e s r := by
  unfold EndSpec at h ⊢
  rw [Framer.drive_append, hd]
  exact h

/-- A data part that was refused, whatever follows. -/
theorem endSpec_error {ds ds' : List (UInt8 × List UInt8)} {e : Ending} {s : PutState} {x : PutFail}
    (hd : j.framer.drive j.sink (s.rl, s.record) s.fp ds = .error x) :
    j.EndSpec (ds ++ ds') e s (.error x) := by
  unfold EndSpec
  rw [Framer.drive_append, hd]

theorem endSpec_cut {ds : List (UInt8 × List UInt8)} {message : String} {s : PutState} {h : Held}
    {fp : Option Target}
    (hd : j.framer.drive j.sink (s.rl, s.record) s.fp ds = .ok (h, fp)) :
    j.EndSpec ds (.cut message) s (.error (message, fp)) := by
  unfold EndSpec
  rw [hd]
  rfl

theorem drive_open {h h' : Held} {fp fp' : Option Target} {ds : List (UInt8 × List UInt8)}
    (hp : 0 < j.dcb.piece) (ho : j.Open h)
    (hd : j.framer.drive j.sink h fp ds = .ok (h', fp')) : j.Open h' := by
  rw [(Framer.drive_ok hd).1]
  exact j.framer.run_inv (I := j.Open) (fun _ b ho => j.framer_open hp ho b) _ h ho

/-- The whole body by its framing: what is delivered, driven through the framer, and the end. -/
theorem putChunks_exec (hp : 0 < j.dcb.piece) (s : PutState) (ho : j.Open (s.rl, s.record)) :
    ∃ ds e, Delivers j.sizeCp s.conn.unread ds e ∧ j.EndSpec ds e s (j.putChunks.exec s) := by
  refine j.putChunks.rule (P := fun s r => j.Open (s.rl, s.record) →
    ∃ ds e, Delivers j.sizeCp s.conn.unread ds e ∧ j.EndSpec ds e s r) ?_ ?_ s ho
  · intro s r h ho
    simp only [putChunks, putChunk] at h
    split at h
    · next line c hl =>
      cases h
      obtain ⟨d, hd, -⟩ := sizeLine_bulk hl
      exact ⟨[], _, .noLine hd, rfl⟩
    · next line e c he hl =>
      obtain ⟨d, hd, hdu⟩ := sizeLine_bulk hl
      split at h
      · next hv =>
        cases h
        refine ⟨[], _, .zero hd he hv, ?_⟩
        rw [hdu]
        exact j.putLast_spec { s with conn := c }
      · next hv =>
        have hdata := j.putData_exec "Error reading chunk data" (sizeValue j.sizeCp line)
          { s with conn := c } ho
        simp only [DataSpec] at hdata
        split at h
        · next x hr =>
          cases h
          rw [hr] at hdata
          split at hdata
          · next y hdr =>
            cases hdata
            rcases Nat.lt_or_ge c.unread.length (sizeValue j.sizeCp line + 2) with ht | ht
            · rw [← List.append_nil (tagged _ _)] at hdr
              rcases Nat.lt_or_ge c.unread.length (sizeValue j.sizeCp line) with hs | hs
              · refine ⟨_, _, .short hd he hv (hdu ▸ hs), ?_⟩
                rw [hdu, ← List.append_nil (tagged _ _)]
                exact j.endSpec_error (by simpa using hdr)
              · refine ⟨_, _, .noTrailer hd he hv (hdu ▸ hs) (hdu ▸ ht), ?_⟩
                rw [hdu, ← List.append_nil (tagged _ _)]
                exact j.endSpec_error (by simpa using hdr)
            · obtain ⟨ds, e', htail⟩ :=
                Delivers.total j.sizeCp (d.unread.drop (sizeValue j.sizeCp line + 2))
              refine ⟨_, _, .chunk hd he hv (hdu ▸ ht) htail, ?_⟩
              rw [hdu]
              exact j.endSpec_error hdr
          · next h' fp hdr =>
            split at hdata
            · obtain ⟨_, -, hx⟩ := hdata
              cases hx
            · next hs =>
              cases hdata
              refine ⟨_, _, .short hd he hv (by rw [hdu]; omega), ?_⟩
              rw [hdu]
              exact j.endSpec_cut hdr
        · next s₁ hr =>
          rw [hr] at hdata
          split at hdata
          · cases hdata
          · next h' fp hdr =>
            split at hdata
            · next hs =>
              obtain ⟨c₁, hc₁, hx⟩ := hdata
              cases hx
              simp only [Conn.receiveRawData, hc₁] at h
              split at h
              · next ht =>
                cases h
                have ht' : c.unread.length < sizeValue j.sizeCp line + 2 := by
                  rw [List.length_take, List.length_drop] at ht
                  omega
                refine ⟨_, _, .noTrailer hd he hv (hdu ▸ hs) (hdu ▸ ht'), ?_⟩
                rw [hdu]
                exact j.endSpec_cut hdr
              · cases h
            · cases hdata
  · intro s s' h ih ho
    simp only [putChunks, putChunk] at h
    split at h
    · cases h
    · next line e c he hl =>
      obtain ⟨d, hd, hdu⟩ := sizeLine_bulk hl
      split at h
      · cases h
      · next hv =>
        have hdata := j.putData_exec "Error reading chunk data" (sizeValue j.sizeCp line)
          { s with conn := c } ho
        simp only [DataSpec] at hdata
        split at h
        · cases h
        · next s₁ hr =>
          rw [hr] at hdata
          split at hdata
          · cases hdata
          · next h' fp hdr =>
            split at hdata
            · next hs =>
              obtain ⟨c₁, hc₁, hx⟩ := hdata
              cases hx
              simp only [Conn.receiveRawData, hc₁] at h
              split at h
              · cases h
              · next ht =>
                cases h
                have ht' : sizeValue j.sizeCp line + 2 ≤ c.unread.length := by
                  rw [List.length_take, List.length_drop] at ht
                  omega
                obtain ⟨ds, e', htail, hend⟩ := ih (j.drive_open hp ho hdr)
                rw [List.drop_drop] at htail
                refine ⟨_, e', .chunk hd he hv (hdu ▸ ht') (hdu ▸ htail), ?_⟩
                rw [hdu]
                exact j.endSpec_append hdr hend
            · cases hdata

theorem putReceive_spec (hp : 0 < j.dcb.piece) (chunked : Bool) (contentLength : Nat)
    (s : PutState) (ho : j.Open (s.rl, s.record)) :
    ∃ ds e, Received j.sizeCp chunked contentLength s.conn.unread ds e ∧
      j.EndSpec ds e s (j.putReceive chunked contentLength s) := by
  unfold Received putReceive
  by_cases hc : chunked = true
  · simp only [hc, if_true]
    exact j.putChunks_exec hp s ho
  · simp only [if_neg hc]
    refine ⟨_, _, ⟨rfl, rfl⟩, ?_⟩
    have hdata := j.putData_exec "Error reading data" contentLength s ho
    unfold DataSpec at hdata
    unfold EndSpec
    split at hdata
    · next x hdr => rw [hdata]
    · next h fp hdr =>
      split at hdata
      · next hle =>
        obtain ⟨c, hc, hx⟩ := hdata
        rw [hx]
        simp only [if_pos hle, ended, putFinal_eq, hc]
        cases j.conclude h fp (s.conn.unread.drop contentLength) with
        | error x => rfl
        | ok fp' => exact ⟨_, rfl, rfl, rfl, hc⟩
      · next hle =>
        rw [hdata]
        simp only [if_neg hle, ended]

/-! ## The outcome -/

/-- What becomes of the delivered bytes. -/
def outcome (fp : Option Target) (ds : List (UInt8 × List UInt8)) (e : Ending) : PutOut :=
  match j.framer.drive j.sink j.fresh fp ds with
  | .error (message, fp) => ⟨handleError ERR_IO message, fp⟩
  | .ok (h, fp) =>
    match j.ended h fp e with
    | .error (message, fp) => ⟨handleError ERR_IO message, fp⟩
    | .ok (fp, unread) =>
      match openWriteTarget j.am unread fp with
      | none => ⟨j.openFailed, none⟩
      | some t =>
        if j.am.closes = false then ⟨handleError ERR_IO "Error writing the last block", some t⟩
        else if h.1.truncated then
          ⟨handleError ERR_IO "Record truncated to the record length of the data set", some t⟩
        else ⟨.plain 204, some t⟩

/-- A PUT is the outcome of the bytes its framing delivers. -/
theorem putBody_eq (hp : 0 < j.dcb.piece) (chunked : Bool) (contentLength : Nat)
    (fp : Option Target) (c : Conn) :
    ∃ ds e, Received j.sizeCp chunked contentLength c.unread ds e ∧
      j.putBody chunked contentLength fp c = j.outcome fp ds e := by
  obtain ⟨ds, e, hrec, hspec⟩ := j.putReceive_spec hp chunked contentLength
    ⟨c, fp, reclineInit j.dcb.contentMax, []⟩ hp
  refine ⟨ds, e, hrec, ?_⟩
  unfold EndSpec at hspec
  unfold putBody outcome
  rw [show j.fresh = (reclineInit j.dcb.contentMax, []) from rfl]
  split at hspec
  · next x hdr => rw [hdr, hspec]
  · next h fp' hdr =>
    rw [hdr]
    simp only
    split at hspec
    · next x hend => rw [hend, hspec]
    · next fp'' unread hend =>
      obtain ⟨⟨conn, fp, rl, record⟩, hx, h1, h2, h3⟩ := hspec
      cases h1
      cases h2
      cases h3
      rewrite [hend, hx]
      rfl

end PutJob

/-! ## What is on the target -/

/-- The records on a target, none while it is not open. -/
def onTarget (fp : Option Target) : List (List UInt8) := (fp.map Target.records).getD []

namespace PutJob

variable (j : PutJob)

/-- What of a list of records comes onto the target: a record of no bytes does not. -/
def stored (rs : List (List UInt8)) : List (List UInt8) :=
  rs.filterMap fun r => (j.out r).filter (· ≠ [])

theorem stored_append (rs rs' : List (List UInt8)) :
    j.stored (rs ++ rs') = j.stored rs ++ j.stored rs' := List.filterMap_append

theorem flushRecord_cases (err : Nat) :
    flushRecord err = 0 ∨ flushRecord err = -1 ∨ flushRecord err = -2 := by
  unfold flushRecord
  split
  · exact .inl rfl
  · split
    · exact .inr (.inr rfl)
    · exact .inr (.inl rfl)

/-- A record the access method is given bytes of. -/
theorem stored_single {record r : List UInt8} (h : j.out record = some r) (hr : r ≠ []) :
    j.stored [record] = [r] := by
  simp [stored, h, Option.filter, hr]

theorem stored_empty {record : List UInt8} (h : j.out record = some []) :
    j.stored [record] = [] := by
  simp [stored, h, Option.filter]

theorem writeRecord_cases (t : Target) (record : List UInt8) :
    j.writeRecord t record = (t, -1) ∨ j.writeRecord t record = (t, -2) ∨
    j.out record ≠ none ∧
      j.writeRecord t record = ({ t with records := t.records ++ j.stored [record] }, 0) := by
  unfold writeRecord
  split
  · exact .inl rfl
  · next ho =>
    rw [j.stored_empty ho, List.append_nil]
    exact .inr (.inr ⟨by rw [ho]; exact nofun, rfl⟩)
  · next r hr ho =>
    rw [j.stored_single ho hr]
    split
    · exact .inl rfl
    · next err _ =>
      rcases flushRecord_cases err with h | h | h <;> rw [h]
      · exact .inr (.inr ⟨by rw [ho]; exact nofun, rfl⟩)
      · exact .inl rfl
      · exact .inr (.inl rfl)

/-- Everything one record can do. -/
theorem putRecord_cases (message : String) (fp : Option Target) (unread record : List UInt8) :
    (openWriteTarget j.am unread fp = none ∧
      j.putRecord message fp unread record = .error (message, none)) ∨
    ∃ t, openWriteTarget j.am unread fp = some t ∧
      (j.putRecord message fp unread record = .error (message, some t) ∨
        j.out record ≠ none ∧ j.putRecord message fp unread record =
          .ok (some { t with records := t.records ++ j.stored [record] })) := by
  unfold putRecord writeRecordOpen
  cases openWriteTarget j.am unread fp with
  | none => exact .inl ⟨rfl, rfl⟩
  | some t =>
    refine .inr ⟨t, rfl, ?_⟩
    rcases j.writeRecord_cases t record with h | h | ⟨ho, h⟩ <;> simp only [h]
    · exact .inl rfl
    · exact .inl rfl
    · exact .inr ⟨ho, rfl⟩

theorem openWriteTarget_some {am : AccessMethod} {unread : List UInt8} {fp : Option Target}
    {t : Target} (h : openWriteTarget am unread fp = some t) :
    fp = some t ∨ fp = none ∧ t = ⟨unread, []⟩ := by
  unfold openWriteTarget at h
  split at h
  · exact .inl h
  · split at h
    · exact .inr ⟨rfl, (Option.some.inj h).symm⟩
    · cases h

theorem openWriteTarget_onTarget {am : AccessMethod} {unread : List UInt8} {fp : Option Target}
    {t : Target} (h : openWriteTarget am unread fp = some t) : t.records = onTarget fp := by
  rcases openWriteTarget_some h with rfl | ⟨rfl, rfl⟩ <;> rfl

/-- A record that went through is on the target. -/
theorem putRecord_ok {message : String} {fp fp' : Option Target} {unread record : List UInt8}
    (h : j.putRecord message fp unread record = .ok fp') :
    j.out record ≠ none ∧ onTarget fp' = onTarget fp ++ j.stored [record] ∧ fp'.isSome := by
  rcases j.putRecord_cases message fp unread record with ⟨-, he⟩ | ⟨t, ht, he | ⟨ho, he⟩⟩
  · rw [he] at h; cases h
  · rw [he] at h; cases h
  · rw [he] at h
    cases h
    exact ⟨ho, by rw [← openWriteTarget_onTarget ht]; rfl, rfl⟩

/-- The records a run took are on the target. -/
theorem took_onTarget {fp fp' : Option Target} {rs : List (List UInt8)}
    (h : Framer.Took j.sink fp rs fp') :
    (∀ r ∈ rs, j.out r ≠ none) ∧ onTarget fp' = onTarget fp ++ j.stored rs := by
  induction h with
  | nil => exact ⟨fun _ h => (nomatch h), (List.append_nil _).symm⟩
  | @cons fp fp₁ fp' i r rs hs _ ih =>
    obtain ⟨h1, h2, -⟩ := j.putRecord_ok hs
    refine ⟨?_, ?_⟩
    · intro r' hr'
      rcases List.mem_cons.mp hr' with rfl | hr'
      · exact h1
      · exact ih.1 r' hr'
    · rw [ih.2, h2, List.append_assoc, ← stored_append]
      rfl

/-! ## What a body comes to -/

/-- The records that end among the bytes of a body. -/
def given (body : List UInt8) : List (List UInt8) := (j.framer.run j.fresh body).2

/-- All records of a body, the one that ends with it included. -/
def records (body : List UInt8) : List (List UInt8) := j.framer.records j.fresh body

/-- A line of the body is longer than a record. -/
def truncates (body : List UInt8) : Bool := (j.framer.run j.fresh body).1.1.truncated

/-- What a part of a body gives, the whole gives. -/
theorem given_append (body body' : List UInt8) (h : j.given body ≠ []) :
    j.given (body ++ body') ≠ [] := by
  unfold given at h ⊢
  rw [Framer.run_append]
  exact fun h0 => h (List.append_eq_nil_iff.mp h0).1

/-- A sink that took a record left the target open. -/
theorem took_isSome {fp fp' : Option Target} {rs : List (List UInt8)}
    (h : Framer.Took j.sink fp rs fp') (h0 : rs ≠ []) : fp'.isSome = true := by
  induction h with
  | nil => exact absurd rfl h0
  | @cons fp fp₁ fp' i r rs hs htail ih =>
    by_cases hrs : rs = []
    · subst hrs
      cases htail
      exact (j.putRecord_ok hs).2.2
    · exact ih hrs

end PutJob

/-- The end of a body at which the handlers go on to close the target. -/
def Ending.Well : Ending → Prop
  | .cut _ => False
  | .last rest => rest.take 2 = [Chunked.CR, Chunked.LF]
  | .all _ => True

namespace PutJob

variable (j : PutJob)

theorem conclude_ok {h : Held} {fp fp' : Option Target} {unread : List UInt8}
    (hc : j.conclude h fp unread = .ok fp') :
    (∀ r ∈ (j.framer.flush h).toList, j.out r ≠ none) ∧
      onTarget fp' = onTarget fp ++ j.stored (j.framer.flush h).toList := by
  unfold conclude at hc
  split at hc
  · next hf =>
    cases hc
    simp [hf, stored]
  · next rec hf =>
    obtain ⟨h1, h2, -⟩ := j.putRecord_ok hc
    rw [hf]
    refine ⟨fun r hr => ?_, h2⟩
    rw [Option.mem_toList] at hr
    exact Option.some.inj hr ▸ h1

theorem conclude_none {h : Held} {fp : Option Target} {unread : List UInt8}
    (hc : j.conclude h fp unread = .ok none) : fp = none := by
  unfold conclude at hc
  split at hc
  · exact Except.ok.inj hc
  · cases (j.putRecord_ok hc).2.2

theorem ended_ok {h : Held} {fp fp' : Option Target} {e : Ending} {unread : List UInt8}
    (he : j.ended h fp e = .ok (fp', unread)) :
    e.Well ∧ ∃ rest, (e = .last rest ∨ e = .all rest) ∧ unread <:+ rest ∧
      j.conclude h fp rest = .ok fp' := by
  cases e with
  | cut message => cases he
  | all rest =>
    simp only [ended] at he
    cases hc : j.conclude h fp rest with
    | error x => rw [hc] at he; cases he
    | ok fp'' =>
      rw [hc] at he
      cases he
      exact ⟨trivial, _, .inr rfl, List.suffix_rfl, hc⟩
  | last rest =>
    simp only [ended] at he
    split at he
    · cases he
    · next fp'' hc =>
      split at he
      · cases he
      · split at he
        · cases he
        · next hcrlf =>
          cases he
          exact ⟨not_not.mp hcrlf, rest, .inl rfl, List.drop_suffix 2 rest, hc⟩

theorem ended_error {h : Held} {fp fp' : Option Target} {e : Ending} {message : String}
    (he : j.ended h fp e = .error (message, fp')) :
    (e = .cut message ∧ fp' = fp) ∨ ∃ rest, (e = .last rest ∨ e = .all rest) ∧
      ((∃ m, j.conclude h fp rest = .error (m, fp')) ∨ j.conclude h fp rest = .ok fp') := by
  cases e with
  | cut message => cases he; exact .inl ⟨rfl, rfl⟩
  | all rest =>
    simp only [ended] at he
    cases hc : j.conclude h fp rest with
    | error x =>
      rw [hc] at he
      cases he
      exact .inr ⟨rest, .inr rfl, .inl ⟨_, hc⟩⟩
    | ok fp'' => rw [hc] at he; cases he
  | last rest =>
    simp only [ended] at he
    split at he
    · next x hc =>
      cases he
      exact .inr ⟨rest, .inl rfl, .inl ⟨_, hc⟩⟩
    · next fp'' hc =>
      refine .inr ⟨rest, .inl rfl, .inr ?_⟩
      split at he
      · cases he; exact hc
      · split at he
        · cases he; exact hc
        · cases he

/-- A PUT that is answered with success had a good end, no line too long and no record refused, and
its records are on the target. -/
theorem outcome_success {fp : Option Target} {ds : List (UInt8 × List UInt8)} {e : Ending}
    (h : (j.outcome fp ds e).answer.success = true) :
    e.Well ∧ j.truncates (ds.map Prod.fst) = false ∧
      (∀ r ∈ j.records (ds.map Prod.fst), j.out r ≠ none) ∧
      ∃ t, (j.outcome fp ds e).fp = some t ∧
        t.records = onTarget fp ++ j.stored (j.records (ds.map Prod.fst)) := by
  unfold outcome at h ⊢
  split at h
  · rw [handleError_success] at h; cases h
  · next h' fp' hdr =>
    obtain ⟨hst, htook⟩ := Framer.drive_ok hdr
    obtain ⟨hout, hon⟩ := j.took_onTarget htook
    split at h
    · rw [handleError_success] at h; cases h
    · next fp'' unread hend =>
      obtain ⟨hwell, rest, -, -, hconc⟩ := j.ended_ok hend
      obtain ⟨hout', hon'⟩ := j.conclude_ok hconc
      split at h
      · rw [j.openFailed.2] at h; cases h
      · next t hopen =>
        split at h
        · rw [handleError_success] at h; cases h
        · next hclose =>
          split at h
          · rw [handleError_success] at h; cases h
          · next htr =>
            rw [hst] at htr hout' hon'
            refine ⟨hwell, by simpa [truncates] using htr, ?_, t, ?_, ?_⟩
            · intro r hr
              rcases List.mem_append.mp hr with hr | hr
              · exact hout r hr
              · exact hout' r hr
            · simp only [if_neg hclose, if_neg htr, hst]
            · rw [openWriteTarget_onTarget hopen, hon', hon, List.append_assoc, ← stored_append]
              rfl

theorem putRecord_sound (hs : j.am = .sound) {message : String} {fp : Option Target}
    {unread record : List UInt8} (ho : j.out record ≠ none) :
    ∃ fp', j.putRecord message fp unread record = .ok fp' := by
  have hw : ∀ t, ∃ t', j.writeRecord t record = (t', 0) := by
    intro t
    unfold writeRecord
    split
    · next h => exact absurd h ho
    · exact ⟨t, rfl⟩
    · rw [hs]
      exact ⟨_, rfl⟩
  have hop : ∃ t, openWriteTarget j.am unread fp = some t := by
    rw [hs]
    cases fp with
    | none => exact ⟨_, rfl⟩
    | some t => exact ⟨t, rfl⟩
  obtain ⟨t, ht⟩ := hop
  obtain ⟨t', ht'⟩ := hw t
  unfold putRecord writeRecordOpen
  simp only [ht, ht']
  exact ⟨_, rfl⟩

theorem drive_sound (hs : j.am = .sound) (ds : List (UInt8 × List UInt8)) (h : Held)
    (fp : Option Target) (hout : ∀ r ∈ (j.framer.run h (ds.map Prod.fst)).2, j.out r ≠ none) :
    ∃ h' fp', j.framer.drive j.sink h fp ds = .ok (h', fp') := by
  cases hd : j.framer.drive j.sink h fp ds with
  | ok p => exact ⟨p.1, p.2, rfl⟩
  | error x =>
    obtain ⟨rs, r, rs', fp', u, hrun, -, hsink⟩ := Framer.drive_error hd
    obtain ⟨fp'', hok⟩ : ∃ fp'', j.putRecord "Error writing record" fp' u r = .ok fp'' :=
      j.putRecord_sound hs (hout r (by rw [hrun]; simp))
    rw [show j.sink fp' u r = _ from hok] at hsink
    cases hsink

/-- On an access method that takes everything a PUT without a fault is answered 204. -/
theorem outcome_sound (hs : j.am = .sound) {fp : Option Target} {ds : List (UInt8 × List UInt8)}
    {e : Ending} (hw : e.Well) (ht : j.truncates (ds.map Prod.fst) = false)
    (hout : ∀ r ∈ j.records (ds.map Prod.fst), j.out r ≠ none) :
    (j.outcome fp ds e).answer = .plain 204 := by
  obtain ⟨h', fp', hdr⟩ := j.drive_sound hs ds j.fresh fp
    fun r hr => hout r (List.mem_append.mpr (.inl hr))
  have hst := (Framer.drive_ok hdr).1
  have hconc : ∀ rest, ∃ fp'', j.conclude h' fp' rest = .ok fp'' := by
    intro rest
    unfold conclude
    split
    · exact ⟨_, rfl⟩
    · next rec hf =>
      refine j.putRecord_sound hs (hout rec (List.mem_append.mpr (.inr ?_)))
      rw [← hst, hf]
      simp
  have hend : ∃ p, j.ended h' fp' e = .ok p := by
    unfold ended
    cases e with
    | cut m => exact hw.elim
    | all rest =>
      obtain ⟨fp'', hc⟩ := hconc rest
      simp only [hc]
      exact ⟨_, rfl⟩
    | last rest =>
      obtain ⟨fp'', hc⟩ := hconc rest
      have hcrlf : rest.take 2 = [Chunked.CR, Chunked.LF] := hw
      simp only [hc, hcrlf]
      exact ⟨_, rfl⟩
  obtain ⟨⟨fp'', unread⟩, hend⟩ := hend
  have hopen : ∃ t, openWriteTarget j.am unread fp'' = some t := by
    rw [hs]
    cases fp'' with
    | none => exact ⟨_, rfl⟩
    | some t => exact ⟨t, rfl⟩
  obtain ⟨t, hopen⟩ := hopen
  have htr : ¬ h'.1.truncated = true := by
    rw [hst]
    simpa [truncates] using ht
  unfold outcome
  simp only [hdr, hend, hopen, if_neg htr]
  rw [hs]
  rfl

/-! ## When the target is opened -/

/-- The target a driven framer leaves. -/
def leaves : Except PutFail (Held × Option Target) → Option Target
  | .error (_, fp) => fp
  | .ok (_, fp) => fp

theorem putRecord_fp (message : String) (fp : Option Target) (unread record : List UInt8) :
    ∃ fp', (j.putRecord message fp unread record = .error (message, fp') ∨
        j.putRecord message fp unread record = .ok fp') ∧
      fp'.map Target.unread = (openWriteTarget j.am unread fp).map Target.unread := by
  rcases j.putRecord_cases message fp unread record with ⟨hn, he⟩ | ⟨t, ht, he | ⟨-, he⟩⟩
  · exact ⟨none, .inl he, by rw [hn]⟩
  · exact ⟨some t, .inl he, by rw [ht]⟩
  · exact ⟨_, .inr he, by rw [ht]; rfl⟩

/-- A target once open stays open. -/
theorem drive_keeps (ds : List (UInt8 × List UInt8)) : ∀ (h : Held) (t : Target),
    (leaves (j.framer.drive j.sink h (some t) ds)).map Target.unread = some t.unread := by
  induction ds with
  | nil => intro h t; rfl
  | cons p ds ih =>
    intro h t
    obtain ⟨b, u⟩ := p
    simp only [Framer.drive]
    split
    · exact ih _ _
    · next h' r hput =>
      obtain ⟨fp', he | he, hu⟩ := j.putRecord_fp "Error writing record" (some t) u r
      · rw [show j.sink (some t) u r = _ from he]
        exact hu
      · rw [show j.sink (some t) u r = _ from he]
        obtain ⟨t', rfl⟩ : ∃ t', fp' = some t' := by
          cases fp' with
          | none => cases hu
          | some t' => exact ⟨t', rfl⟩
        simp only
        rw [ih h' t']
        exact hu

/-- A target not open at first is opened behind a byte that completes a record. -/
theorem drive_opens (ds : List (UInt8 × List UInt8)) : ∀ (h : Held) (u : List UInt8),
    (leaves (j.framer.drive j.sink h none ds)).map Target.unread = some u →
    ∃ ds' b ds'', ds = ds' ++ (b, u) :: ds'' ∧
      (j.framer.run h ((ds' ++ [(b, u)]).map Prod.fst)).2 ≠ [] := by
  induction ds with
  | nil => intro h u hl; cases hl
  | cons p ds ih =>
    intro h u hl
    obtain ⟨b, v⟩ := p
    simp only [Framer.drive] at hl
    split at hl
    · next h' hput =>
      obtain ⟨ds', b', ds'', rfl, hrun⟩ := ih h' u hl
      refine ⟨(b, v) :: ds', b', ds'', rfl, ?_⟩
      simp only [List.cons_append, List.map_cons, Framer.run, hput, Option.toList_none,
        List.nil_append]
      exact hrun
    · next h' r hput =>
      have hrun : (j.framer.run h (([] ++ [(b, v)]).map Prod.fst)).2 ≠ [] := by
        simp [Framer.run, hput]
      obtain ⟨fp', he | he, hu⟩ := j.putRecord_fp "Error writing record" none v r
      · rw [show j.sink none v r = _ from he] at hl
        rw [show fp'.map Target.unread = _ from hl] at hu
        have : v = u := by
          unfold openWriteTarget at hu
          split at hu
          · next h => cases h
          · split at hu
            · exact (Option.some.inj hu).symm
            · cases hu
        subst this
        exact ⟨[], b, ds, rfl, hrun⟩
      · rw [show j.sink none v r = _ from he] at hl
        simp only at hl
        cases fp' with
        | none =>
          obtain ⟨-, -, hsome⟩ := j.putRecord_ok he
          cases hsome
        | some t =>
          rw [j.drive_keeps] at hl
          have : v = u := by
            rcases ho : openWriteTarget j.am v none with _ | t'
            · rw [ho] at hu; cases hu
            · rw [ho] at hu
              rcases openWriteTarget_some ho with h | ⟨-, rfl⟩
              · cases h
              · exact (Option.some.inj hu).symm.trans (Option.some.inj hl)
          subst this
          exact ⟨[], b, ds, rfl, hrun⟩

end PutJob

end Mvsmf
