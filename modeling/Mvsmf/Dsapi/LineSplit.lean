import Mvsmf.Dsapi.Records

/-!
# The lines of a text

The text framer over the caller's buffer: each store names a byte that the buffer has. What it delivers
are the lines of the stream as they are split at CRLF, CR and LF, each cut to the content maximum, and
an empty line as one blank. The caller may do to the buffer what it likes while it holds a record.
-/

namespace Mvsmf

/-! ## The framer over its buffer -/

/-- `RECLINE` over a buffer of `size` bytes. -/
structure LineBuf (size : Nat) where
  buf : Vector UInt8 size
  len : Nat
  contentMax : Nat
  pendingLf : Bool
  truncated : Bool
  max_pos : 0 < contentMax
  max_le : contentMax ≤ size
  len_le : len ≤ contentMax

namespace LineBuf

variable {size : Nat}

/-- `recline_init` -/
def init (buf : Vector UInt8 size) (contentMax : Nat) (max_pos : 0 < contentMax)
    (max_le : contentMax ≤ size) : LineBuf size :=
  ⟨buf, 0, contentMax, false, false, max_pos, max_le, Nat.zero_le _⟩

/-- `recline_put` -/
def put (rl : LineBuf size) (c : UInt8) : LineBuf size × Option (List UInt8) :=
  if rl.pendingLf = true ∧ c = ASCII_LF then ({ rl with pendingLf := false }, none)
  else if c = ASCII_LF ∨ c = ASCII_CR then
    have hfirst : 0 < size := Nat.lt_of_lt_of_le rl.max_pos rl.max_le
    let buf := if rl.len = 0 then rl.buf.set 0 ASCII_BLANK else rl.buf
    let len := if rl.len = 0 then 1 else rl.len
    ({ rl with
        buf := buf
        len := 0
        pendingLf := decide (c = ASCII_CR)
        len_le := Nat.zero_le _ },
      some (buf.toList.take len))
  else if hfull : rl.contentMax ≤ rl.len then
    ({ rl with pendingLf := false, truncated := true }, none)
  else
    have hlen : rl.len < size := Nat.lt_of_lt_of_le (Nat.lt_of_not_le hfull) rl.max_le
    ({ rl with
        buf := rl.buf.set rl.len c
        len := rl.len + 1
        pendingLf := false
        len_le := Nat.lt_of_not_le hfull },
      none)

/-- `recline_flush` -/
def flush (rl : LineBuf size) : Option (List UInt8) :=
  if rl.len = 0 then none else some (rl.buf.toList.take rl.len)

/-- A byte is fed, with what the caller does to the buffer if it gets a record for it. -/
def feed (rl : LineBuf size) (c : UInt8 × (Vector UInt8 size → Vector UInt8 size)) :
    LineBuf size × Option (List UInt8) :=
  match rl.put c.1 with
  | (rl', none) => (rl', none)
  | (rl', some record) => ({ rl' with buf := c.2 rl'.buf }, some record)

def framer (size : Nat) :
    Framer (LineBuf size) (UInt8 × (Vector UInt8 size → Vector UInt8 size)) (List UInt8) where
  put := feed
  flush := flush

/-- The framer with the bytes that it holds. -/
def held (rl : LineBuf size) : Recline :=
  ⟨rl.buf.toList.take rl.len, rl.contentMax, rl.pendingLf, rl.truncated⟩

theorem length_held (rl : LineBuf size) : rl.held.buf.length = rl.len := by
  rw [held, List.length_take, Vector.length_toList, Nat.min_eq_left (Nat.le_trans rl.len_le rl.max_le)]

theorem held_eq_nil (rl : LineBuf size) : rl.held.buf = [] ↔ rl.len = 0 := by
  rw [← List.length_eq_zero_iff, length_held]

/-- A byte stored behind a prefix makes it one longer. -/
theorem take_set {buf : Vector UInt8 size} {n : Nat} (c : UInt8) (h : n < size) :
    (buf.set n c).toList.take (n + 1) = buf.toList.take n ++ [c] := by
  have hset : n < (buf.toList.set n c).length := by
    rw [List.length_set, Vector.length_toList]
    exact h
  rw [Vector.toList_set, List.take_succ_eq_append_getElem hset, List.getElem_set_self,
    List.take_set_of_le (Nat.le_refl n)]

/-- The framer does to its buffer what `reclinePut` does to the bytes. -/
theorem put_held (rl : LineBuf size) (c : UInt8) :
    reclinePut rl.held c = ((rl.put c).1.held, (rl.put c).2) := by
  have hblank (h : 0 < size) : (rl.buf.set 0 ASCII_BLANK).toList.take 1 = [ASCII_BLANK] := by
    rw [take_set, List.take_zero, List.nil_append]
  have hpending : rl.held.pendingLf = rl.pendingLf := rfl
  have hmax : rl.held.contentMax = rl.contentMax := rfl
  rw [reclinePut, put, hpending, hmax]
  by_cases hlf : rl.pendingLf = true ∧ c = ASCII_LF
  · rw [if_pos hlf, if_pos hlf]
    rfl
  · rw [if_neg hlf, if_neg hlf]
    by_cases hend : c = ASCII_LF ∨ c = ASCII_CR
    · rw [if_pos hend, if_pos hend]
      by_cases hempty : rl.len = 0
      · simp only [(held_eq_nil rl).mpr hempty, hempty, if_true, hblank]
        rfl
      · simp only [mt (held_eq_nil rl).mp hempty, hempty, if_false]
        rfl
    · rw [if_neg hend, if_neg hend, length_held]
      by_cases hfull : rl.contentMax ≤ rl.len
      · rw [dif_pos hfull, if_pos hfull]
        rfl
      · rw [dif_neg hfull, if_neg hfull]
        simp only [held, take_set]

/-- Behind a record nothing is held. -/
theorem put_record {rl rl' : LineBuf size} {c : UInt8} {record : List UInt8}
    (h : rl.put c = (rl', some record)) : rl'.len = 0 := by
  rw [put] at h
  split at h
  · cases h
  · split at h
    · cases h
      rfl
    · split at h <;> cases h

/-- What the caller does to the buffer does not matter. -/
theorem feed_held (rl : LineBuf size) (c : UInt8 × (Vector UInt8 size → Vector UInt8 size)) :
    reclinePut rl.held c.1 = ((rl.feed c).1.held, (rl.feed c).2) := by
  rw [put_held, feed]
  split
  · next hput => rw [hput]
  · next rl' record hput =>
    have hlen := put_record hput
    simp only [hput, held, hlen, List.take_zero]

theorem flush_held (rl : LineBuf size) : reclineFlush rl.held = rl.flush := by
  simp only [reclineFlush, held_eq_nil, flush]
  rfl

end LineBuf

/-! ## The lines of a stream -/

/-- No byte of it ends a line. -/
def PlainLine (l : List UInt8) : Prop := ∀ c ∈ l, c ≠ ASCII_LF ∧ c ≠ ASCII_CR

/-- A CRLF, a lone CR or a lone LF in front of `s`. -/
inductive LineBreak : List UInt8 → List UInt8 → Prop
  | crlf {s : List UInt8} : LineBreak [ASCII_CR, ASCII_LF] s
  | cr {s : List UInt8} : s.head? ≠ some ASCII_LF → LineBreak [ASCII_CR] s
  | lf {s : List UInt8} : LineBreak [ASCII_LF] s

/-- A stream is split into the lines that end and what stands behind the last line end. -/
inductive SplitLines : List UInt8 → List (List UInt8) → List UInt8 → Prop
  | last {l : List UInt8} : PlainLine l → SplitLines l [] l
  | line {l e s : List UInt8} {lines : List (List UInt8)} {last : List UInt8} :
    PlainLine l → LineBreak e s → SplitLines s lines last → SplitLines (l ++ (e ++ s)) (l :: lines) last

theorem plainLine_nil : PlainLine [] := fun _ h => nomatch h

theorem plainLine_cons {c : UInt8} {l : List UInt8} :
    PlainLine (c :: l) ↔ (c ≠ ASCII_LF ∧ c ≠ ASCII_CR) ∧ PlainLine l := List.forall_mem_cons

theorem SplitLines.cons {c : UInt8} {s : List UInt8} {lines : List (List UInt8)} {last : List UInt8}
    (hc : c ≠ ASCII_LF ∧ c ≠ ASCII_CR) (h : SplitLines s lines last) :
    ∃ lines last, SplitLines (c :: s) lines last := by
  cases h with
  | last hl => exact ⟨_, _, .last (plainLine_cons.mpr ⟨hc, hl⟩)⟩
  | line hl he hs => exact ⟨_, _, .line (plainLine_cons.mpr ⟨hc, hl⟩) he hs⟩

/-- Every stream is split. -/
theorem SplitLines.total : ∀ s : List UInt8, ∃ lines last, SplitLines s lines last
  | [] => ⟨[], [], .last plainLine_nil⟩
  | [c] => by
    by_cases hlf : c = ASCII_LF
    · subst hlf
      exact ⟨[[]], [], .line plainLine_nil .lf (.last plainLine_nil)⟩
    by_cases hcr : c = ASCII_CR
    · subst hcr
      exact ⟨[[]], [], .line plainLine_nil (LineBreak.cr (s := []) nofun) (.last plainLine_nil)⟩
    exact ⟨[], [c], .last (plainLine_cons.mpr ⟨⟨hlf, hcr⟩, plainLine_nil⟩)⟩
  | c :: d :: s => by
    obtain ⟨_, _, hs⟩ := SplitLines.total (d :: s)
    by_cases hlf : c = ASCII_LF
    · subst hlf
      exact ⟨_, _, .line plainLine_nil .lf hs⟩
    by_cases hcr : c = ASCII_CR
    · subst hcr
      by_cases hd : d = ASCII_LF
      · subst hd
        obtain ⟨_, _, hs⟩ := SplitLines.total s
        exact ⟨_, _, .line plainLine_nil .crlf hs⟩
      · have hlone : (d :: s).head? ≠ some ASCII_LF := fun h => hd (Option.some.inj h)
        exact ⟨_, _, .line plainLine_nil (.cr hlone) hs⟩
    exact hs.cons ⟨hlf, hcr⟩

/-- A byte that ends a line stands at the front. -/
def StartsEnd (s : List UInt8) : Prop := ∃ c t, s = c :: t ∧ (c = ASCII_LF ∨ c = ASCII_CR)

theorem LineBreak.startsEnd {e s : List UInt8} (h : LineBreak e s) : StartsEnd (e ++ s) := by
  cases h with
  | crlf => exact ⟨_, _, rfl, .inr rfl⟩
  | cr _ => exact ⟨_, _, rfl, .inr rfl⟩
  | lf => exact ⟨_, _, rfl, .inl rfl⟩

theorem PlainLine.not_mem {l l' s : List UInt8} (hl : PlainLine l) (hs : StartsEnd s) :
    l ≠ l' ++ s := by
  rintro rfl
  obtain ⟨c, t, rfl, hc⟩ := hs
  obtain ⟨hlf, hcr⟩ := hl c (List.mem_append_right l' List.mem_cons_self)
  exact hc.elim hlf hcr

/-- The first line of a stream ends at its first line end. -/
theorem PlainLine.append_inj {l l' s s' : List UInt8} (hl : PlainLine l) (hl' : PlainLine l')
    (hs : StartsEnd s) (hs' : StartsEnd s') (h : l ++ s = l' ++ s') : l = l' ∧ s = s' := by
  rcases List.append_eq_append_iff.mp h with ⟨m, rfl, rfl⟩ | ⟨m, rfl, rfl⟩
  · cases m with
    | nil => exact ⟨(List.append_nil l).symm, rfl⟩
    | cons c m =>
      obtain ⟨c', t, heq, hc⟩ := hs
      obtain ⟨rfl, -⟩ := List.cons.inj heq
      obtain ⟨hlf, hcr⟩ := hl' c (List.mem_append_right l List.mem_cons_self)
      exact (hc.elim hlf hcr).elim
  · cases m with
    | nil => exact ⟨List.append_nil l', rfl⟩
    | cons c m =>
      obtain ⟨c', t, heq, hc⟩ := hs'
      obtain ⟨rfl, -⟩ := List.cons.inj heq
      obtain ⟨hlf, hcr⟩ := hl c (List.mem_append_right l' List.mem_cons_self)
      exact (hc.elim hlf hcr).elim

theorem LineBreak.unique {e e' s s' : List UInt8} (h : LineBreak e s) (h' : LineBreak e' s')
    (heq : e ++ s = e' ++ s') : s = s' := by
  have hne : ASCII_CR ≠ ASCII_LF := by decide
  cases h with
  | crlf =>
    cases h' with
    | crlf => exact (List.cons.inj (List.cons.inj heq).2).2
    | cr hs' => exact absurd (congrArg List.head? (List.cons.inj heq).2).symm hs'
    | lf => exact absurd (List.cons.inj heq).1 hne
  | cr hs =>
    cases h' with
    | crlf => exact absurd (congrArg List.head? (List.cons.inj heq).2) hs
    | cr _ => exact (List.cons.inj heq).2
    | lf => exact absurd (List.cons.inj heq).1 hne
  | lf =>
    cases h' with
    | crlf => exact absurd (List.cons.inj heq).1.symm hne
    | cr _ => exact absurd (List.cons.inj heq).1.symm hne
    | lf => exact (List.cons.inj heq).2

/-- A stream is split in one way only. -/
theorem SplitLines.unique {s : List UInt8} {lines lines' : List (List UInt8)} {last last' : List UInt8}
    (h : SplitLines s lines last) (h' : SplitLines s lines' last') : lines = lines' ∧ last = last' := by
  induction h generalizing lines' last' with
  | @last l hl =>
    generalize hs : l = s at h'
    cases h' with
    | last => exact ⟨rfl, rfl⟩
    | line _ he => exact absurd hs (hl.not_mem he.startsEnd)
  | @line l e s lines last hl he hrest ih =>
    generalize hs : l ++ (e ++ s) = stream at h'
    cases h' with
    | last hl' => exact absurd hs.symm (hl'.not_mem he.startsEnd)
    | line hl' he' hrest' =>
      obtain ⟨rfl, hends⟩ := hl.append_inj hl' he.startsEnd he'.startsEnd hs
      obtain rfl := he.unique he' hends
      obtain ⟨rfl, rfl⟩ := ih hrest'
      exact ⟨rfl, rfl⟩

/-! ## The records of a stream -/

def lineFramer : Framer Recline UInt8 (List UInt8) := ⟨reclinePut, reclineFlush⟩

/-- The record that a line is delivered as. -/
def lineRecord (contentMax : Nat) (line : List UInt8) : List UInt8 :=
  if line = [] then [ASCII_BLANK] else line.take contentMax

/-- The framer with the bytes of a line that has not ended, lines before it cut or not. -/
def Recline.inLine (contentMax : Nat) (cut : Bool) (line : List UInt8) : Recline :=
  ⟨line.take contentMax, contentMax, false, cut || decide (contentMax < line.length)⟩

section

variable {contentMax : Nat} {cut : Bool} {line : List UInt8}

theorem inLine_nil : Recline.inLine contentMax cut [] = ⟨[], contentMax, false, cut⟩ := by
  rw [Recline.inLine, List.take_nil, List.length_nil, decide_eq_false (Nat.not_lt_zero _), Bool.or_false]

/-- A byte of the line is held, or it is past the content maximum. -/
theorem reclinePut_plain {c : UInt8} (hc : c ≠ ASCII_LF ∧ c ≠ ASCII_CR) :
    reclinePut (Recline.inLine contentMax cut line) c =
      (Recline.inLine contentMax cut (line ++ [c]), none) := by
  have hlen : (line.take contentMax).length = min contentMax line.length := List.length_take
  rw [reclinePut, if_neg (fun h => hc.1 h.2), if_neg (not_or.mpr hc)]
  by_cases hfull : contentMax ≤ line.length
  · have hcut : contentMax < (line ++ [c]).length := by
      rw [List.length_append]
      exact Nat.lt_succ_of_le hfull
    rw [if_pos (by simp only [Recline.inLine]; omega)]
    simp only [Recline.inLine, decide_eq_true hcut, Bool.or_true, List.take_append_of_le_length hfull]
  · have hshort : (line ++ [c]).length ≤ contentMax := by
      rw [List.length_append, List.length_singleton]
      omega
    rw [if_neg (by simp only [Recline.inLine]; omega)]
    simp only [Recline.inLine, List.take_of_length_le hshort, decide_eq_false (Nat.not_lt.mpr hshort),
      List.take_of_length_le (Nat.le_of_not_le hfull), decide_eq_false (mt Nat.le_of_lt hfull)]

/-- A line end delivers the line. -/
theorem reclinePut_end (hmax : 0 < contentMax) {c : UInt8} (hc : c = ASCII_LF ∨ c = ASCII_CR) :
    reclinePut (Recline.inLine contentMax cut line) c =
      ({ Recline.inLine contentMax (cut || decide (contentMax < line.length)) [] with
          pendingLf := decide (c = ASCII_CR) }, some (lineRecord contentMax line)) := by
  have hnil : line.take contentMax = [] ↔ line = [] := by
    rw [List.take_eq_nil_iff]
    exact or_iff_right (Nat.ne_of_gt hmax)
  rw [reclinePut, if_neg (fun h => Bool.noConfusion h.1), if_pos hc, inLine_nil]
  simp only [Recline.inLine, lineRecord, hnil]

/-- A CR that no LF stands behind is like an LF. -/
theorem reclinePut_pending (rl : Recline) {c : UInt8} (hc : c ≠ ASCII_LF) :
    reclinePut { rl with pendingLf := true } c = reclinePut { rl with pendingLf := false } c := by
  simp only [reclinePut, hc, and_false, if_false, false_or]

/-- What a stream leaves: its records, and whether a line was cut. -/
def Recline.outcome (rl : Recline) (s : List UInt8) : List (List UInt8) × Bool :=
  (lineFramer.records rl s, (lineFramer.run rl s).1.truncated)

theorem outcome_append (rl : Recline) (s t : List UInt8) :
    rl.outcome (s ++ t) =
      ((lineFramer.run rl s).2 ++ ((lineFramer.run rl s).1.outcome t).1,
        ((lineFramer.run rl s).1.outcome t).2) := by
  rw [Recline.outcome, Framer.records_append, Framer.run_append]
  rfl

theorem outcome_cons (rl : Recline) (c : UInt8) (s : List UInt8) :
    rl.outcome (c :: s) =
      ((reclinePut rl c).2.toList ++ ((reclinePut rl c).1.outcome s).1,
        ((reclinePut rl c).1.outcome s).2) := by
  have h := outcome_append rl [c] s
  rw [List.singleton_append] at h
  rw [h]
  simp only [Framer.run, List.append_nil]
  rfl

theorem run_plain {l : List UInt8} (hl : PlainLine l) :
    lineFramer.run (Recline.inLine contentMax cut line) l =
      (Recline.inLine contentMax cut (line ++ l), []) := by
  induction l generalizing line with
  | nil => rw [Framer.run, List.append_nil]
  | cons c l ih =>
    obtain ⟨hc, hl⟩ := plainLine_cons.mp hl
    have hput : lineFramer.put (Recline.inLine contentMax cut line) c =
        (Recline.inLine contentMax cut (line ++ [c]), none) := reclinePut_plain hc
    rw [Framer.run, hput, ih hl, List.append_assoc]
    rfl

/-- Behind a CR that no LF stands behind, the stream goes on as behind an LF. -/
theorem outcome_pending {s : List UInt8} (h : s.head? ≠ some ASCII_LF) :
    Recline.outcome ⟨[], contentMax, true, cut⟩ s = Recline.outcome ⟨[], contentMax, false, cut⟩ s := by
  cases s with
  | nil => rfl
  | cons c s =>
    have hc : c ≠ ASCII_LF := fun hc => h (congrArg some hc)
    have hput : reclinePut ⟨[], contentMax, true, cut⟩ c = reclinePut ⟨[], contentMax, false, cut⟩ c :=
      reclinePut_pending ⟨[], contentMax, false, cut⟩ hc
    rw [outcome_cons, outcome_cons, hput]

theorem outcome_end (hmax : 0 < contentMax) {e s : List UInt8} (he : LineBreak e s) :
    (Recline.inLine contentMax cut line).outcome (e ++ s) =
      let rest :=
        (Recline.inLine contentMax (cut || decide (contentMax < line.length)) []).outcome s
      (lineRecord contentMax line :: rest.1, rest.2) := by
  cases he with
  | crlf =>
    rw [List.cons_append, outcome_cons, reclinePut_end hmax (.inr rfl), inLine_nil, List.singleton_append,
      outcome_cons, reclinePut, if_pos ⟨rfl, rfl⟩]
    rfl
  | cr h =>
    rw [List.singleton_append, outcome_cons, reclinePut_end hmax (.inr rfl), inLine_nil]
    dsimp only
    rw [decide_eq_true rfl, outcome_pending h]
    rfl
  | lf =>
    rw [List.singleton_append, outcome_cons, reclinePut_end hmax (.inl rfl), inLine_nil]
    rfl

/-- The records of a stream are its lines. -/
theorem outcome_split (hmax : 0 < contentMax) {s : List UInt8} {lines : List (List UInt8)}
    {last : List UInt8} (h : SplitLines s lines last) (cut : Bool) :
    (Recline.inLine contentMax cut []).outcome s =
      (lines.map (lineRecord contentMax) ++ if last = [] then [] else [last.take contentMax],
        cut || (lines ++ [last]).any fun line => decide (contentMax < line.length)) := by
  induction h generalizing cut with
  | @last l hl =>
    have hnil : l.take contentMax = [] ↔ l = [] := by
      rw [List.take_eq_nil_iff]
      exact or_iff_right (Nat.ne_of_gt hmax)
    have hflush : lineFramer.flush (Recline.inLine contentMax cut l) =
        if l = [] then none else some (l.take contentMax) := if_congr hnil rfl rfl
    rw [Recline.outcome, Framer.records, run_plain hl]
    simp only [List.nil_append, hflush, List.map_nil, List.any_cons, List.any_nil, Bool.or_false]
    rw [Recline.inLine]
    split <;> rfl
  | @line l e s lines last hl he _ ih =>
    rw [outcome_append, run_plain hl, List.nil_append]
    dsimp only
    rw [outcome_end hmax he, ih]
    simp only [List.nil_append, List.map_cons, List.cons_append, List.any_cons, Bool.or_assoc]

end

/-- **The lines of a stream.** A stream is split into its lines in exactly one way, and the framer
delivers them in order, each cut to the content maximum, an empty one as a blank, and what stands
behind the last line end if it is not empty. -/
theorem recline_lines {size contentMax : Nat} (hmax : 0 < contentMax) (hsize : contentMax ≤ size)
    (buf : Vector UInt8 size)
    (stream : List (UInt8 × (Vector UInt8 size → Vector UInt8 size))) :
    let rl := LineBuf.init buf contentMax hmax hsize
    let delivered := (LineBuf.framer size).records rl stream
    ∃ lines last,
      (∀ lines' last', SplitLines (stream.map Prod.fst) lines' last' ↔ lines' = lines ∧ last' = last) ∧
      delivered = lines.map (lineRecord contentMax) ++
        (if last = [] then [] else [last.take contentMax]) ∧
      (∀ record ∈ delivered, 1 ≤ record.length ∧ record.length ≤ contentMax) ∧
      (((LineBuf.framer size).run rl stream).1.truncated = true ↔
        ∃ line ∈ lines ++ [last], contentMax < line.length) := by
  intro rl delivered
  obtain ⟨lines, last, hsplit⟩ := SplitLines.total (stream.map Prod.fst)
  have hrun := Framer.run_map (LineBuf.framer size) lineFramer LineBuf.held Prod.fst
    (fun rl c => LineBuf.feed_held rl c) stream rl
  have hstart : rl.held = Recline.inLine contentMax false [] := by
    rw [inLine_nil]
    rfl
  have hdelivered : delivered = lineFramer.records rl.held (stream.map Prod.fst) := by
    rw [Framer.records, hrun]
    exact congrArg (fun r => _ ++ Option.toList r) (LineBuf.flush_held _).symm
  have hend : ((LineBuf.framer size).run rl stream).1.truncated =
      (lineFramer.run rl.held (stream.map Prod.fst)).1.truncated := by
    rw [hrun]
    rfl
  have houtcome := outcome_split hmax hsplit false
  rw [← hstart, Recline.outcome, ← hdelivered, ← hend, Bool.false_or, Prod.mk.injEq] at houtcome
  obtain ⟨hrecords, htrunc⟩ := houtcome
  refine ⟨lines, last, fun lines' last' => ⟨fun h => h.unique hsplit, ?_⟩, hrecords, ?_, ?_⟩
  · rintro ⟨rfl, rfl⟩
    exact hsplit
  · intro record hrecord
    have htake {line : List UInt8} (hne : line ≠ []) :
        1 ≤ (line.take contentMax).length ∧ (line.take contentMax).length ≤ contentMax := by
      have := List.length_pos_iff.mpr hne
      rw [List.length_take]
      omega
    rw [hrecords, List.mem_append, List.mem_map] at hrecord
    rcases hrecord with ⟨line, -, rfl⟩ | hrecord
    · by_cases hempty : line = []
      · rw [lineRecord, if_pos hempty]
        exact ⟨Nat.le_refl 1, hmax⟩
      · rw [lineRecord, if_neg hempty]
        exact htake hempty
    · split at hrecord
      · cases hrecord
      · next hne =>
        rw [List.mem_singleton.mp hrecord]
        exact htake hne
  · rw [htrunc, List.any_eq_true]
    simp only [decide_eq_true_eq]

/-- A caller that wipes the buffer at each record. -/
theorem recline_lines_wiped :
    let stream := [0x61, ASCII_CR, ASCII_LF, 0x62, 0x63, 0x64].map fun c =>
      (c, fun _ : Vector UInt8 3 => Vector.replicate 3 0)
    let rl := LineBuf.init (Vector.replicate 3 0) 2 Nat.two_pos (Nat.le_succ 2)
    let delivered := (LineBuf.framer 3).records rl stream
    delivered = [[0x61], [0x62, 0x63]] ∧
      ∃ lines last, SplitLines (stream.map Prod.fst) lines last ∧
        delivered = lines.map (lineRecord 2) ++ (if last = [] then [] else [last.take 2]) := by
  intro stream rl delivered
  obtain ⟨lines, last, hsplit, hdelivered, -⟩ :=
    recline_lines Nat.two_pos (Nat.le_succ 2) (Vector.replicate 3 0) stream
  exact ⟨rfl, lines, last, (hsplit lines last).mpr ⟨rfl, rfl⟩, hdelivered⟩

end Mvsmf
