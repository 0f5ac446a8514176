import Mvsmf.Common.ReqBody
import Mathlib

/-!
# Runs of `read_body`

With storage for every request, `read_chunked` gives a coded stream back as its body and leaves the
connection at the next request; a stream that is cut off in front of the end of its last size line is
bad. A body with a Content-Length comes to the same.
-/

namespace Mvsmf

namespace BodyState

/-- Storage has not failed, and `size` is what the block holds. -/
structure Sound (s : BodyState) : Prop where
  nomem : s.nomem = false
  size : s.size = (s.buf.getD []).length

theorem start_sound (c : Conn) : (BodyState.start c).Sound := ⟨rfl, rfl⟩

theorem fail_rc {s : BodyState} (h : s.Sound) {rc : BodyRc} (hrc : rc ≠ .ok) (c : Conn) :
    (s.fail rc c).rc ≠ .ok := by
  simp [fail, h.nomem, hrc]

/-- The last request for storage was for `size` bytes and the NUL behind them. -/
def HasRoom (heap : List HeapOp) (size : Nat) : Prop :=
  heap.getLast? = some (.alloc (size + 1) true) ∨ heap.getLast? = some (.resize (size + 1) true)

theorem grow_sound {s : BodyState} (h : s.Sound) {ops : BodyOps}
    (hg : ∀ n, ops.grant n = true) (chunk : Nat) :
    (s.grow ops chunk).nomem = false ∧ (s.grow ops chunk).size = s.size ∧
      (s.grow ops chunk).buf = some (s.buf.getD []) ∧
      HasRoom (s.grow ops chunk).heap (s.size + chunk) := by
  rw [grow, if_neg (by simp [h.nomem]), hg, if_pos rfl]
  refine ⟨h.nomem, rfl, rfl, ?_⟩
  cases s.buf with
  | none => exact Or.inl (by simp)
  | some b => exact Or.inr (by simp)

theorem finish_sound {s : BodyState} (h : s.Sound) {ops : BodyOps}
    (hg : ∀ n, ops.grant n = true) (c : Conn) :
    (s.finish ops c).rc = .ok ∧ (s.finish ops c).content = some (s.buf.getD []) ∧
      (s.finish ops c).conn = c ∧ (s.finish ops c).stored = some (s.size, 0) ∧
      ((s.buf.isSome = true → HasRoom s.heap s.size) → HasRoom (s.finish ops c).heap s.size) := by
  have hsize := h.size
  rw [finish, if_neg (by simp [h.nomem])]
  cases hb : s.buf with
  | none =>
    rw [hb] at hsize
    rw [hsize]
    simp [hg, HasRoom]
  | some b => exact ⟨rfl, rfl, rfl, rfl, fun hroom => hroom rfl⟩

theorem fail_bad {s : BodyState} (h : s.nomem = false) (c : Conn) : (s.fail .bad c).rc = .bad := by
  simp [fail, h]

end BodyState

/-- One turn of `read_chunked` when there is storage. -/
theorem chunkStep_sound {ops : BodyOps} (hg : ∀ n, ops.grant n = true) {s : BodyState}
    (h : s.Sound) {line : List UInt8} {e : LineEnd} {c : Conn}
    (hl : sizeLine s.conn = (line, e, c)) :
    (∃ s', chunkStep ops s = .inl s' ∧ s'.Sound ∧ e = .cr ∧
      sizeValue ops.cp line < REQBODY_MAX - s.size ∧ sizeValue ops.cp line ≠ 0 ∧
      sizeValue ops.cp line + 2 ≤ c.unread.length ∧
      s'.conn.unread = c.unread.drop (sizeValue ops.cp line + 2) ∧
      s'.buf.getD [] = s.buf.getD [] ++ c.unread.take (sizeValue ops.cp line) ∧
      BodyState.HasRoom s'.heap s'.size) ∨
    (∃ r, chunkStep ops s = .inr r ∧ r.rc = .ok ∧ r.content = some (s.buf.getD []) ∧
      e = .cr ∧ noDigits ops.cp line = false ∧ sizeValue ops.cp line = 0 ∧
      s.size < REQBODY_MAX ∧ r.conn.unread = c.unread.drop 2 ∧ r.stored = some (s.size, 0) ∧
      ((s.buf.isSome = true → BodyState.HasRoom s.heap s.size) →
        BodyState.HasRoom r.heap s.size)) ∨
    (∃ r, chunkStep ops s = .inr r ∧ r.rc ≠ .ok ∧
      (e ≠ .cr ∨ noDigits ops.cp line = true ∨ sizeValue ops.cp line ≥ REQBODY_MAX - s.size ∨
        sizeValue ops.cp line ≠ 0 ∧ c.unread.length < sizeValue ops.cp line + 2) ∧
      r.content = none ∧
      (e ≠ .cr ∨ sizeValue ops.cp line < REQBODY_MAX - s.size → r.rc = .bad)) := by
  have hbad : ∀ u : BodyState, u.nomem = false → ∀ c', (u.fail .bad c').rc ≠ .ok := by
    intro u hu c'
    rw [BodyState.fail_bad hu]
    decide
  unfold chunkStep
  rw [hl]
  cases e with
  | full =>
    exact .inr (.inr ⟨_, rfl, hbad s h.nomem c, .inl (by decide), rfl,
      fun _ => BodyState.fail_bad h.nomem c⟩)
  | closed =>
    exact .inr (.inr ⟨_, rfl, hbad s h.nomem c, .inl (by decide), rfl,
      fun _ => BodyState.fail_bad h.nomem c⟩)
  | cr =>
    simp only
    by_cases hd : noDigits ops.cp line = true
    · rw [if_pos hd]
      exact .inr (.inr ⟨_, rfl, hbad s h.nomem c, .inr (.inl hd), rfl,
        fun _ => BodyState.fail_bad h.nomem c⟩)
    rw [if_neg hd]
    by_cases hm : sizeValue ops.cp line ≥ REQBODY_MAX - s.size
    · rw [if_pos hm]
      refine .inr (.inr ⟨_, rfl, BodyState.fail_rc h (by decide) c, .inr (.inr (.inl hm)), rfl, ?_⟩)
      rintro (hcr | hlt)
      · exact absurd rfl hcr
      · exact absurd hlt (Nat.not_lt.mpr hm)
    rw [if_neg hm]
    by_cases hv : sizeValue ops.cp line = 0
    · rw [if_pos hv]
      obtain ⟨h1, h2, h3, h4, h5⟩ := BodyState.finish_sound h hg (c.receiveRawData 2).2
      refine .inr (.inl ⟨_, rfl, h1, h2, trivial, by simpa using hd, hv, by omega, ?_, h4, h5⟩)
      rw [h3, Conn.receiveRawData_unread]
    rw [if_neg hv]
    obtain ⟨g1, g2, g3, g4⟩ := BodyState.grow_sound h hg (sizeValue ops.cp line)
    generalize s.grow ops (sizeValue ops.cp line) = t at g1 g2 g3 g4
    unfold BodyState.chunkData
    rw [if_neg (by simp [g1]), readExact_exec, g3]
    by_cases hdl : sizeValue ops.cp line ≤ c.unread.length
    · rw [if_pos hdl]
      simp only [Conn.receiveRawData, List.length_take, List.length_drop, Option.getD_some]
      by_cases ht2 : min 2 (c.unread.length - sizeValue ops.cp line) = 2
      · rw [if_pos ht2]
        refine .inl ⟨_, rfl, ⟨g1, ?_⟩, trivial, by omega, hv, by omega, ?_, rfl, ?_⟩
        · simp only [Option.getD_some, List.length_append, List.length_take, g2, h.size]
          omega
        · simp only [List.drop_drop]
        · simp only [g2]
          exact g4
      · rw [if_neg ht2]
        exact .inr (.inr ⟨_, rfl, hbad _ g1 c, .inr (.inr (.inr ⟨hv, by omega⟩)), rfl,
          fun _ => BodyState.fail_bad g1 c⟩)
    · rw [if_neg hdl]
      exact .inr (.inr ⟨_, rfl, hbad _ g1 c, .inr (.inr (.inr ⟨hv, by omega⟩)), rfl,
        fun _ => BodyState.fail_bad g1 c⟩)

/-- A size line that fits is read whole, with the byte behind its CR. -/
theorem sizeLine_take {c : Conn} {line u : List UInt8} (hf : Fits line) (hcr : Chunked.CR ∉ line)
    (hu : c.unread = line ++ Chunked.CR :: u) :
    ∃ d, sizeLine c = (line, .cr, d) ∧ d.unread = u.drop 1 := by
  obtain ⟨s, bulk⟩ := c
  cases hu
  exact ⟨_, sizeLineIn_cr _ line u bulk (Nat.lt_succ_of_le hf) hcr, rfl⟩

/-- A size line of a well-formed stream that fits is read whole. -/
theorem sizeLine_fits {c : Conn} {line t : List UInt8} (hf : Fits line) (hcr : Chunked.CR ∉ line)
    (hu : c.unread = line ++ Chunked.CR :: Chunked.LF :: t) :
    ∃ d, sizeLine c = (line, .cr, d) ∧ d.unread = t :=
  sizeLine_take hf hcr hu

/-- A longer one is not read to its CR. -/
theorem sizeLine_long {c : Conn} {line t : List UInt8} (hf : ¬ Fits line)
    (hcr : Chunked.CR ∉ line) (hu : c.unread = line ++ Chunked.CR :: t) :
    ∃ l d, sizeLine c = (l, .full, d) := by
  have := sizeLineIn_spec (CHUNK_LINE_MAX - 1) c
  rcases hl : sizeLine c with ⟨l, e, d⟩
  rw [show sizeLineIn (CHUNK_LINE_MAX - 1) c = _ from hl] at this
  cases e with
  | full => exact ⟨l, d, rfl⟩
  | cr =>
    obtain ⟨h1, h2, t', h3, -⟩ := this
    obtain ⟨rfl, -⟩ := Chunked.line_unique h2 hcr (h3.symm.trans hu)
    exact absurd (Nat.lt_succ_iff.mp h1) hf
  | closed =>
    obtain ⟨-, h2, h3, -⟩ := this
    rw [hu] at h3
    exact absurd (h3 ▸ List.mem_append.mpr (.inr List.mem_cons_self)) h2

/-- A connection that ends in a size line. -/
theorem sizeLine_closed {c : Conn} (hlen : c.unread.length ≤ 8) (hcr : Chunked.CR ∉ c.unread) :
    ∃ l d, sizeLine c = (l, .closed, d) := by
  have := sizeLineIn_spec (CHUNK_LINE_MAX - 1) c
  rcases hl : sizeLine c with ⟨l, e, d⟩
  rw [show sizeLineIn (CHUNK_LINE_MAX - 1) c = _ from hl] at this
  cases e with
  | closed => exact ⟨l, d, rfl⟩
  | cr =>
    obtain ⟨-, -, t, hu, -⟩ := this
    exact absurd (by rw [hu]; simp) hcr
  | full =>
    obtain ⟨hfull, -, hu⟩ := this
    rw [hu, List.length_append, hfull] at hlen
    exact absurd (Nat.le_trans (Nat.le_add_right _ _) hlen) (by decide)

/-! ## Chunked bodies, whole and cut off -/

section Run

variable {ops : BodyOps} (hg : ∀ n, ops.grant n = true)

include hg

/-- A size line that fits, and what the turn behind it does with the stream. -/
theorem chunkStep_line {st : BodyState} (hst : st.Sound) {line u : List UInt8} {n : Nat}
    (hl : Chunked.SizeLine line n) (hf : Fits line) (hu : st.conn.unread = line ++ Chunked.CR :: u)
    (hsize : st.size + n < REQBODY_MAX) :
    (∃ s', chunkStep ops st = .inl s' ∧ s'.Sound ∧ n ≠ 0 ∧ n + 2 ≤ (u.drop 1).length ∧
      s'.conn.unread = (u.drop 1).drop (n + 2) ∧
      s'.buf.getD [] = st.buf.getD [] ++ (u.drop 1).take n ∧
      BodyState.HasRoom s'.heap s'.size) ∨
    (∃ r, chunkStep ops st = .inr r ∧ n = 0 ∧ r.rc = .ok ∧ r.content = some (st.buf.getD []) ∧
      r.conn.unread = (u.drop 1).drop 2 ∧ r.stored = some (st.size, 0) ∧
      ((st.buf.isSome = true → BodyState.HasRoom st.heap st.size) →
        BodyState.HasRoom r.heap st.size)) ∨
    (∃ r, chunkStep ops st = .inr r ∧ n ≠ 0 ∧ (u.drop 1).length < n + 2 ∧ r.rc = .bad ∧
      r.content = none) := by
  obtain ⟨d, hline, hd⟩ := sizeLine_take hf hl.noCR hu
  have hv := sizeValue_short ops.cp hl hf
  have hlt : n < REQBODY_MAX - st.size := by omega
  rw [← hd]
  rcases chunkStep_sound hg hst hline with
    ⟨s', hs', hst', -, -, h0, hlen, hu', hbuf, hroom⟩ |
    ⟨r, hr, hok, hcon, -, -, h0, -, hu', hnul, hroom⟩ | ⟨r, hr, -, hwhy, hnone, hbad⟩
  · rw [hv] at h0 hlen hu' hbuf
    exact Or.inl ⟨s', hs', hst', h0, hlen, hu', hbuf, hroom⟩
  · rw [hv] at h0
    exact Or.inr (Or.inl ⟨r, hr, h0, hok, hcon, hu', hnul, hroom⟩)
  · rw [hv] at hwhy hbad
    right; right
    rcases hwhy with h | h | h | ⟨h0, h⟩
    · exact absurd rfl h
    · rw [(strtoul_sizeText ops.cp hl).2] at h
      cases h
    · omega
    · exact ⟨r, hr, h0, h, hbad (Or.inr hlt), hnone⟩

/-- A coded stream, from any turn on: the block is what there was and the body, and the connection
is two bytes behind the last size line. -/
theorem readChunked_whole {s b rest : List UInt8} (h : Chunked.Coded Fits s b rest)
    {st : BodyState} (hst : st.Sound) (hu : st.conn.unread = s)
    (hroom : st.buf.isSome = true → BodyState.HasRoom st.heap st.size)
    (hsize : st.size + b.length < REQBODY_MAX) :
    let out := (readChunkedLoop ops).exec st
    out.rc = .ok ∧ out.content = some (st.buf.getD [] ++ b) ∧ out.conn.unread = rest.drop 2 ∧
      out.stored = some (st.size + b.length, 0) ∧ BodyState.HasRoom out.heap (st.size + b.length) := by
  induction h generalizing st with
  | @last line rest hp hl =>
    rcases chunkStep_line hg hst hl hp hu hsize with
      ⟨s', -, -, h0, -⟩ | ⟨r, hr, -, hok, hcon, hu', hnul, hroom'⟩ | ⟨r, -, h0, -⟩
    · exact absurd rfl h0
    · intro out
      have hout : out = r := (readChunkedLoop ops).exec_done hr
      rw [hout, List.append_nil]
      exact ⟨hok, hcon, hu', hnul, hroom' hroom⟩
    · exact absurd rfl h0
  | @chunk line data s b rest hp hl hd htail ih =>
    rw [List.length_append, ← Nat.add_assoc] at hsize
    have hfirst : st.size + data.length < REQBODY_MAX := by omega
    rcases chunkStep_line hg hst hl hp hu hfirst with
      ⟨s', hs', hst', -, -, hu', hbuf, hroom'⟩ | ⟨r, -, h0, -⟩ | ⟨r, -, -, hshort, -⟩
    · rw [List.drop_succ_cons, List.drop_zero, ← List.drop_drop, List.drop_left] at hu'
      rw [List.drop_succ_cons, List.drop_zero, List.take_left] at hbuf
      have hsz : s'.size = st.size + data.length := by
        rw [hst'.size, hbuf, List.length_append, hst.size]
      have hrest := ih hst' hu' (fun _ => hroom') (by rw [hsz]; exact hsize)
      intro out
      have hout : out = (readChunkedLoop ops).exec s' := (readChunkedLoop ops).exec_next hs'
      rw [hout, List.length_append, ← Nat.add_assoc, ← hsz, ← List.append_assoc, ← hbuf]
      exact hrest
    · exact absurd (List.eq_nil_of_length_eq_zero h0) hd
    · rw [List.drop_succ_cons, List.drop_zero, List.length_append] at hshort
      simp only [List.length_cons] at hshort
      omega

/-- A coded stream of which only a beginning comes, up to the CR of its last size line: in front of
that CR it is bad, with it the body is there. -/
theorem readChunked_cut {s b rest : List UInt8} (h : Chunked.Coded Fits s b rest)
    {st : BodyState} (hst : st.Sound) {front : List UInt8} (hfront : s = front ++ Chunked.LF :: rest)
    (hu : st.conn.unread <+: front) (hsize : st.size + b.length < REQBODY_MAX) :
    let out := (readChunkedLoop ops).exec st
    (st.conn.unread ≠ front → out.rc = .bad ∧ out.content = none) ∧
      (st.conn.unread = front → out.rc = .ok ∧ out.content = some (st.buf.getD [] ++ b)) := by
  have hclosed : ∀ {line : List UInt8} {n : Nat} {st : BodyState}, st.Sound →
      Chunked.SizeLine line n → Fits line → st.conn.unread <+: line →
      ((readChunkedLoop ops).exec st).rc = .bad ∧
        ((readChunkedLoop ops).exec st).content = none := by
    intro line n st hst hl hf hpre
    obtain ⟨l, d, hline⟩ := sizeLine_closed (hpre.length_le.trans hf)
      fun hmem => hl.noCR (hpre.subset hmem)
    rcases chunkStep_sound hg hst hline with
      ⟨s', -, -, he, -⟩ | ⟨r, -, -, -, he, -⟩ | ⟨r, hr, -, -, hnone, hbad⟩
    · cases he
    · cases he
    · rw [(readChunkedLoop ops).exec_done hr]
      exact ⟨hbad (Or.inl nofun), hnone⟩
  induction h generalizing st front with
  | @last line rest hp hl =>
    obtain rfl : front = line ++ [Chunked.CR] := by
      rw [List.append_cons] at hfront
      exact (List.append_cancel_right hfront).symm
    intro out
    rcases Chunked.prefix_append_cons_cases hu with hpre | ⟨v, hv, hnil⟩
    · refine ⟨fun _ => hclosed hst hl hp hpre, fun heq => ?_⟩
      have hlen := hpre.length_le
      rw [heq, List.length_append, List.length_singleton] at hlen
      omega
    · obtain rfl := List.prefix_nil.mp hnil
      refine ⟨fun hne => absurd hv hne, fun _ => ?_⟩
      rcases chunkStep_line hg hst hl hp hv hsize with
        ⟨s', -, -, h0, -⟩ | ⟨r, hr, -, hok, hcon, -⟩ | ⟨r, -, h0, -⟩
      · exact absurd rfl h0
      · have hout : out = r := (readChunkedLoop ops).exec_done hr
        rw [hout, List.append_nil]
        exact ⟨hok, hcon⟩
      · exact absurd rfl h0
  | @chunk line data s b rest hp hl hd htail ih =>
    obtain ⟨front', rfl⟩ := htail.ends
    obtain rfl : front = line ++ Chunked.CR :: Chunked.LF ::
        (data ++ Chunked.CR :: Chunked.LF :: front') := by
      have hsame : front ++ Chunked.LF :: rest = (line ++ Chunked.CR :: Chunked.LF ::
          (data ++ Chunked.CR :: Chunked.LF :: front')) ++ Chunked.LF :: rest := by
        rw [← hfront]
        simp
      exact List.append_cancel_right hsame
    rw [List.length_append, ← Nat.add_assoc] at hsize
    have hfirst : st.size + data.length < REQBODY_MAX := by omega
    intro out
    rcases Chunked.prefix_append_cons_cases hu with hpre | ⟨v, hv, hvpre⟩
    · -- the connection ends in the size line
      refine ⟨fun _ => hclosed hst hl hp hpre, fun heq => ?_⟩
      have hlen := hpre.length_le
      rw [heq, List.length_append, List.length_cons] at hlen
      omega
    · rcases chunkStep_line hg hst hl hp hv hfirst with
        ⟨s', hs', hst', -, hlen, hu', hbuf, -⟩ | ⟨r, -, h0, -⟩ | ⟨r, hr, -, hshort, hbad, hnone⟩
      · -- the chunk and its CRLF are there
        obtain ⟨x, rfl, hx⟩ : ∃ x, v = Chunked.LF :: (data ++ Chunked.CR :: Chunked.LF :: x) ∧
            x <+: front' := by
          have htotal : Chunked.LF :: (data ++ Chunked.CR :: Chunked.LF :: front') =
              (Chunked.LF :: (data ++ [Chunked.CR, Chunked.LF])) ++ front' := by simp
          rw [htotal] at hvpre
          have hlong : (Chunked.LF :: (data ++ [Chunked.CR, Chunked.LF])).length ≤ v.length := by
            rw [List.length_drop] at hlen
            simp
            omega
          obtain ⟨x, rfl⟩ := List.prefix_of_prefix_length_le (List.prefix_append _ front') hvpre hlong
          exact ⟨x, by simp, (List.prefix_append_right_inj _).mp hvpre⟩
        rw [List.drop_succ_cons, List.drop_zero, ← List.drop_drop, List.drop_left] at hu'
        rw [List.drop_succ_cons, List.drop_zero, List.take_left] at hbuf
        have hsz : s'.size = st.size + data.length := by
          rw [hst'.size, hbuf, List.length_append, hst.size]
        obtain ⟨hcut, hend⟩ := ih hst' rfl (by rw [hu']; exact hx) (by rw [hsz]; exact hsize)
        have hout : out = (readChunkedLoop ops).exec s' := (readChunkedLoop ops).exec_next hs'
        have hsame : st.conn.unread = line ++ Chunked.CR :: Chunked.LF ::
            (data ++ Chunked.CR :: Chunked.LF :: front') ↔ s'.conn.unread = front' := by
          rw [hv, hu']
          simp
        rw [hout, hbuf, List.append_assoc] at *
        exact ⟨fun hne => hcut fun heq => hne (hsame.mpr heq), fun heq => hend (hsame.mp heq)⟩
      · exact absurd (List.eq_nil_of_length_eq_zero h0) hd
      · -- it ends in the chunk or its CRLF
        have hout : out = r := (readChunkedLoop ops).exec_done hr
        rw [hout]
        refine ⟨fun _ => ⟨hbad, hnone⟩, fun heq => ?_⟩
        rw [hv] at heq
        obtain rfl := (List.cons.inj (List.append_cancel_left heq)).2
        rw [List.drop_succ_cons, List.drop_zero, List.length_append] at hshort
        simp only [List.length_cons] at hshort
        omega

end Run

/-! ## The Content-Length -/

theorem le_foldl_digits (ds : List Char) (v : Nat) :
    v ≤ ds.foldl (fun v c => v * 10 + (CLib.digitVal c).getD 0) v := by
  induction ds generalizing v with
  | nil => exact Nat.le_refl v
  | cons c ds ih =>
    have hstep := ih (v * 10 + (CLib.digitVal c).getD 0)
    rw [List.foldl_cons]
    omega

/-- Digits of a number below the limit are accumulated to it. -/
theorem foldl_lengthStep {ds : List Char} {v : Nat}
    (h : ds.foldl (fun v c => v * 10 + (CLib.digitVal c).getD 0) v < REQBODY_MAX) :
    ds.foldl lengthStep v = ds.foldl (fun v c => v * 10 + (CLib.digitVal c).getD 0) v := by
  induction ds generalizing v with
  | nil => rfl
  | cons c ds ih =>
    have hv : v < REQBODY_MAX := Nat.lt_of_le_of_lt (le_foldl_digits (c :: ds) v) h
    rw [List.foldl_cons] at h ⊢
    rw [List.foldl_cons, lengthStep, if_pos hv]
    exact ih h

/-- A number below the limit, with blanks around it. -/
theorem parseLength_digits {ds : List Char} (hne : ds ≠ []) (hds : ∀ c ∈ ds, isDecimal c = true)
    (hlt : CLib.numeral 10 ds < REQBODY_MAX) (before behind : Nat) :
    parseLength (List.replicate before ' ' ++ ds ++ List.replicate behind ' ') =
      .ok (CLib.numeral 10 ds) := by
  obtain ⟨d, ds', rfl⟩ := List.exists_cons_of_ne_nil hne
  have hd : (d == ' ') = false := by
    rw [beq_eq_false_iff_ne]
    rintro rfl
    exact absurd (hds ' ' List.mem_cons_self) (by decide)
  have hblanks : ∀ k, ∀ c ∈ List.replicate k ' ', (c == ' ') = true := by
    intro k c hc
    rw [List.eq_of_mem_replicate hc]
    rfl
  have hfront : (List.replicate before ' ' ++ (d :: ds') ++ List.replicate behind ' ').dropWhile
      (· == ' ') = d :: ds' ++ List.replicate behind ' ' := by
    rw [List.append_assoc, List.dropWhile_append_of_pos (hblanks before), List.cons_append,
      List.dropWhile_cons_of_neg (by simp [hd])]
  have hno : isDecimal ' ' = false := by decide
  have htake : (d :: ds' ++ List.replicate behind ' ').takeWhile isDecimal = d :: ds' := by
    rw [List.takeWhile_append_of_pos hds, List.takeWhile_replicate, hno]
    simp
  have hdrop : (d :: ds' ++ List.replicate behind ' ').dropWhile isDecimal =
      List.replicate behind ' ' := by
    rw [List.dropWhile_append_of_pos hds, List.dropWhile_replicate, hno]
    simp
  have hend : (List.replicate behind ' ').dropWhile (· == ' ') = [] := by
    rw [List.dropWhile_eq_nil_iff]
    exact hblanks behind
  have hvalue : (d :: ds').foldl lengthStep 0 = CLib.numeral 10 (d :: ds') := foldl_lengthStep hlt
  simp only [parseLength, hfront, htake, hdrop, hend, hvalue]
  rw [if_neg (by simp), if_neg (Nat.not_le.mpr hlt)]

/-- A body with a Content-Length. -/
theorem readLength_run {ops : BodyOps} (hg : ∀ n, ops.grant n = true) {cl : List Char} {n : Nat}
    (hcl : parseLength cl = .ok n) (c : Conn) :
    let out := readLength ops cl c
    (n ≤ c.unread.length → out.rc = .ok ∧ out.content = some (c.unread.take n) ∧
        out.conn.unread = c.unread.drop n ∧ out.stored = some (n, 0) ∧
        BodyState.HasRoom out.heap n) ∧
      (c.unread.length < n → out.rc = .bad ∧ out.content = none) := by
  intro out
  have hout : out = readLength ops cl c := rfl
  simp only [readLength, hcl, readExact_exec, hg, Bool.true_eq_false, if_false] at hout
  constructor
  · intro hle
    rw [if_pos hle] at hout
    rw [hout]
    exact ⟨rfl, rfl, rfl, rfl, Or.inl rfl⟩
  · intro hlt
    rw [if_neg (Nat.not_le.mpr hlt)] at hout
    rw [hout]
    exact ⟨rfl, rfl⟩

/-! ## Both framings -/

/-- The body is there with a NUL stored behind it, in a block that has room for both, and `next` is
what is left of the connection. -/
structure BodyOut.Whole (out : BodyOut) (body next : List UInt8) : Prop where
  rc : out.rc = .ok
  content : out.content = some body
  nul : out.stored = some (body.length, 0)
  conn : out.conn.unread = next
  room : BodyState.HasRoom out.heap body.length

/-- The body was given up. -/
structure BodyOut.Bad (out : BodyOut) : Prop where
  rc : out.rc = .bad
  content : out.content = none

/-- A Content-Length with the digits `ds`. -/
def contentLengthText (before behind : Nat) (ds : List Char) : List Char :=
  List.replicate before ' ' ++ ds ++ List.replicate behind ' '

/-- **A body is read exactly**, in chunks or with its length declared, and the next request is what
is left of the connection. A stream that ends in front of the CR of the last size line, or in front
of the declared length, is bad; one that ends right behind that CR still gives the whole body. -/
theorem readBody_exact {ops : BodyOps} (hg : ∀ n, ops.grant n = true) {s body next : List UInt8}
    (hcoded : Chunked.Coded Fits s body (Chunked.CR :: Chunked.LF :: next))
    (hlen : body.length < REQBODY_MAX) {ds : List Char} (hne : ds ≠ [])
    (hds : ∀ c ∈ ds, isDecimal c = true) (hvalue : CLib.numeral 10 ds = body.length)
    (before behind : Nat) (header : Option (List Char)) (bulk : List Nat) :
    (readBody ops header true ⟨s, bulk⟩).Whole body next ∧
      (readBody ops (some (contentLengthText before behind ds)) false ⟨body ++ next, bulk⟩).Whole
        body next ∧
      (∀ front t, s = front ++ Chunked.LF :: Chunked.CR :: Chunked.LF :: next → t <+: front →
        (t ≠ front → (readBody ops header true ⟨t, bulk⟩).Bad) ∧
          (t = front → (readBody ops header true ⟨t, bulk⟩).rc = .ok ∧
            (readBody ops header true ⟨t, bulk⟩).content = some body)) ∧
      ∀ t, t.length < body.length →
        (readBody ops (some (contentLengthText before behind ds)) false ⟨t, bulk⟩).Bad := by
  have hstart : (BodyState.start ⟨s, bulk⟩).size + body.length = body.length := Nat.zero_add _
  have hsize : (BodyState.start ⟨s, bulk⟩).size + body.length < REQBODY_MAX := hstart.symm ▸ hlen
  have hparse : parseLength (contentLengthText before behind ds) = .ok body.length := by
    rw [contentLengthText, ← hvalue]
    exact parseLength_digits hne hds (hvalue ▸ hlen) before behind
  refine ⟨?_, ?_, ?_, ?_⟩
  · obtain ⟨hrc, hcontent, hconn, hnul, hroom⟩ := readChunked_whole hg hcoded
      (BodyState.start_sound ⟨s, bulk⟩) rfl nofun hsize
    rw [hstart] at hroom hnul
    exact ⟨hrc, hcontent, hnul, hconn, hroom⟩
  · obtain ⟨hrc, hcontent, hconn, hnul, hroom⟩ := (readLength_run hg hparse ⟨body ++ next, bulk⟩).1
      (by rw [List.length_append]; exact Nat.le_add_right _ _)
    rw [List.take_left] at hcontent
    rw [List.drop_left] at hconn
    exact ⟨hrc, hcontent, hnul, hconn, hroom⟩
  · intro front t hfront ht
    obtain ⟨hcut, hend⟩ := readChunked_cut hg hcoded (BodyState.start_sound ⟨t, bulk⟩) hfront ht hsize
    exact ⟨fun hne => ⟨(hcut hne).1, (hcut hne).2⟩, hend⟩
  · intro t ht
    obtain ⟨hrc, hcontent⟩ := (readLength_run hg hparse ⟨t, bulk⟩).2 ht
    exact ⟨hrc, hcontent⟩

/-- One chunk of one byte, and the first byte of the next request behind it. -/
theorem oneByte_coded : Chunked.Coded Fits
    [0x31, 0x0D, 0x0A, 0x41, 0x0D, 0x0A, 0x30, 0x0D, 0x0A, 0x0D, 0x0A, 0x47] [0x41]
    [0x0D, 0x0A, 0x47] := by
  have hline : Chunked.SizeLine [0x31] [(0x41 : UInt8)].length := Chunked.sizeLine_one
  have hlast : Chunked.Coded Fits [0x30, 0x0D, 0x0A, 0x0D, 0x0A, 0x47] [] [0x0D, 0x0A, 0x47] :=
    .last (Nat.le_of_ble_eq_true rfl) Chunked.sizeLine_zero
  exact .chunk (Nat.le_of_ble_eq_true rfl) hline (List.cons_ne_nil _ _) hlast

def roomyOps : BodyOps := ⟨HttpCp.cp037, fun _ => true⟩

theorem roomyOps_grant (n : Nat) : roomyOps.grant n = true := rfl

theorem readBody_exact_oneByte :
    (readBody roomyOps none true ⟨[0x31, 0x0D, 0x0A, 0x41, 0x0D, 0x0A, 0x30, 0x0D, 0x0A, 0x0D,
        0x0A, 0x47], []⟩).Whole [0x41] [0x47] ∧
      (readBody roomyOps (some (contentLengthText 1 0 ['1'])) false ⟨[0x41] ++ [0x47], []⟩).Whole
        [0x41] [0x47] ∧
      (∀ front t, [0x31, 0x0D, 0x0A, 0x41, 0x0D, 0x0A, 0x30, 0x0D, 0x0A, 0x0D, 0x0A, 0x47] =
          front ++ Chunked.LF :: Chunked.CR :: Chunked.LF :: [0x47] → t <+: front →
        (t ≠ front → (readBody roomyOps none true ⟨t, []⟩).Bad) ∧
          (t = front → (readBody roomyOps none true ⟨t, []⟩).rc = .ok ∧
            (readBody roomyOps none true ⟨t, []⟩).content = some [0x41])) ∧
      ∀ t, t.length < [(0x41 : UInt8)].length →
        (readBody roomyOps (some (contentLengthText 1 0 ['1'])) false ⟨t, []⟩).Bad :=
  readBody_exact roomyOps_grant oneByte_coded (by decide) (by decide)
    (List.all_iff_forall_prop.mp rfl) rfl 1 0 none []

/-- The stream ends between the CR and the LF of its last size line. -/
theorem readBody_lost_lf :
    Chunked.Coded Fits ([0x30, 0x0D] ++ [0x0A, 0x0D, 0x0A]) [] [0x0D, 0x0A] ∧
      ¬ (readBody roomyOps none true ⟨[0x30, 0x0D], []⟩).Bad := by
  refine ⟨.last (Nat.le_of_ble_eq_true rfl) Chunked.sizeLine_zero, fun h => ?_⟩
  have hrc : (readBody roomyOps none true ⟨[0x30, 0x0D], []⟩).rc = .ok := by decide +kernel
  cases hrc.symm.trans h.rc

end Mvsmf
