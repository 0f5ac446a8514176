import Mvsmf.Common.JsonBuild
import Mvsmf.Ussapi.UssJson

/-!
# What a client reads in the JSON of the file services

The text of a response is a format with the names in it. So it is read as what the response means
just where each name may stand between quotes as it is: where none has a quote, a backslash or a
control character.
-/

namespace Mvsmf

/-! ## The text sent -/

section Sent
variable (tbl : PrintTable)

/-- What the client receives of a piece. -/
def Piece.sent (tbl : JsonTable) : Piece → List Char
  | .text cs => cs
  | .s bs => tbl.sent bs
  | .u n => Json.decimal n

def sentPieces (tbl : JsonTable) : List Piece → List Char
  | [] => []
  | p :: ps => p.sent tbl ++ sentPieces tbl ps

def Piece.ok : Piece → Bool
  | .text cs => cs.all isTextChar
  | _ => true

theorem isTextChar_lt {c : Char} (h : isTextChar c = true) : c.toNat < 256 := by
  simp only [isTextChar, Bool.or_eq_true, decide_eq_true_eq] at h
  rcases h with ((h | rfl) | rfl) | rfl
  · exact isJsonChar_lt h
  all_goals decide

theorem sent_text_lit {cs : List Char} (h : cs.all isTextChar = true) :
    tbl.sent (tbl.lit cs) = cs :=
  sent_lit_of tbl.toJsonTable fun c hc =>
    have hj := List.all_eq_true.mp h c hc
    ⟨isTextChar_lt hj, tbl.mapsText c hj⟩

theorem sent_printed {ps : List Piece} (h : ps.all Piece.ok = true) :
    tbl.sent (printed tbl.toJsonTable ps) = sentPieces tbl.toJsonTable ps := by
  induction ps with
  | nil => rfl
  | cons p ps ih =>
    rw [List.all_cons, Bool.and_eq_true] at h
    rw [printed, List.flatMap_cons, sent_append, sentPieces, ← ih h.2]
    refine congrArg (· ++ _) ?_
    cases p with
    | text cs => exact sent_text_lit tbl h.1
    | s bs => rfl
    | u n => exact sent_lit tbl.toJsonTable _ (decimal_all n)

end Sent

section Read
variable (tbl : JsonTable)

theorem sentPieces_append (ps qs : List Piece) :
    sentPieces tbl (ps ++ qs) = sentPieces tbl ps ++ sentPieces tbl qs := by
  induction ps with
  | nil => rfl
  | cons p ps ih => rw [List.cons_append, sentPieces, ih, sentPieces, List.append_assoc]

theorem number_format {st : List Json.Frame} {s s' : Json.State} {n : Nat} {c : Char}
    {t : List Char} {holes : List (List Char)} (hc : Json.isWord c = false)
    (hstep : Json.step ⟨Json.put st (.num n 0), .after⟩ c = some s)
    (h : Json.Format s t holes s') :
    Json.Format ⟨st, .value false⟩ (Json.decimal n ++ c :: t) holes s' := by
  rw [List.append_cons]
  refine .fixed ?_ h
  rw [Json.feed_scalar (Json.decimal_word n) (Json.scalar_decimal n) st false hc, Json.feed_cons,
    hstep]
  rfl

/-- The names in an item. -/
def itemHoles (name : CStr) (e : UfsEntry) : List (List Char) :=
  [tbl.sent name.bytes, tbl.sent e.attr.bytes, tbl.sent e.owner.bytes, tbl.sent e.group.bytes,
    tbl.sent (tbl.lit (mtimeText e.mtime))]

theorem item_format {name : CStr} {e : UfsEntry} {st : List Json.Frame} {t : List Char}
    {holes : List (List Char)} {s : Json.State} (hr : Json.Room st)
    (hmtime : tbl.sent (tbl.lit (mtimeText e.mtime)) = mtimeText e.mtime)
    (h : Json.Format ⟨Json.put st (itemValue tbl name e), .after⟩ t holes s) :
    Json.Format ⟨.obj [] none :: st, .key true⟩
      (sentPieces tbl (itemPieces tbl name e) ++ ("    \x7d\n".toList ++ t))
      (itemHoles tbl name e ++ holes) s := by
  simp only [itemPieces, sentPieces, Piece.sent, List.append_assoc, List.nil_append, itemHoles,
    List.cons_append]
  -- each string ends with its quote, and the rest of its format follows
  refine .fixed (m := ⟨.obj [] (some (Json.units "name".toList)) :: st, .chars false []⟩) rfl ?_
  refine .hole hr (.fixed (p := ",\n".toList) rfl ?_)
  refine .fixed (p := "      \"mode\": \"".toList) rfl ?_
  refine .hole hr (.fixed (p := ",\n".toList) rfl ?_)
  refine .fixed (p := "      \"size\": ".toList) rfl ?_
  refine number_format rfl rfl (.fixed (p := "\n".toList) rfl ?_)
  refine .fixed (p := "      \"user\": \"".toList) rfl ?_
  refine .hole hr (.fixed (p := ",\n".toList) rfl ?_)
  refine .fixed (p := "      \"group\": \"".toList) rfl ?_
  refine .hole hr (.fixed (p := ",\n".toList) rfl ?_)
  refine .fixed (p := "      \"links\": ".toList) rfl ?_
  refine number_format rfl rfl (.fixed (p := "\n".toList) rfl ?_)
  refine .fixed (p := "      \"mtime\": \"".toList) rfl ?_
  refine .hole hr (.fixed (p := ",\n".toList) rfl ?_)
  refine .fixed (p := "      \"inode\": ".toList) rfl ?_
  refine number_format rfl rfl (.fixed (p := "    \x7d\n".toList) rfl ?_)
  rw [itemValue, ← hmtime] at h
  simp only [JsonTable.str, ← units_sent] at h
  exact h

/-! ## The listing -/

/-- The items in a row. -/
def itemsPieces : Bool → List UfsEntry → List Piece
  | _, [] => []
  | first, e :: es => separatedItem tbl first e ++ itemsPieces false es

/-- The entries shown behind `emitted` others. -/
def shownFrom (maxitems emitted : Nat) (entries : List UfsEntry) : List UfsEntry :=
  if maxitems = 0 then counted tbl entries else (counted tbl entries).take (maxitems - emitted)

/-- What the loop does over the rest of the directory. -/
theorem foldl_listStep (maxitems : Nat) (es : List UfsEntry) (first : Bool) (emitted total : Nat)
    (out : List Piece) :
    let taken := shownFrom tbl maxitems emitted es
    let s := es.foldl (listStep tbl maxitems) ⟨first, emitted, total, out⟩
    s.emitted = emitted + taken.length ∧ s.total = total + (counted tbl es).length ∧
      s.out = out ++ itemsPieces tbl first taken := by
  induction es generalizing first emitted total out with
  | nil =>
    have hnone : shownFrom tbl maxitems emitted [] = [] := by
      rw [shownFrom]
      split <;> simp [counted]
    rw [hnone]
    exact ⟨rfl, rfl, (List.append_nil out).symm⟩
  | cons e es ih =>
    rw [List.foldl_cons]
    by_cases hdot : isDot tbl e.name = true
    · have hcount : counted tbl (e :: es) = counted tbl es := by
        rw [counted, List.filter_cons, hdot]
        rfl
      simp only [shownFrom, hcount, listStep, hdot, if_true]
      exact ih first emitted total out
    · have hcount : counted tbl (e :: es) = e :: counted tbl es := by
        rw [counted, List.filter_cons, Bool.eq_false_iff.mpr hdot]
        rfl
      by_cases hfull : maxitems > 0 ∧ emitted ≥ maxitems
      · -- the page is full, the entry only counts
        have hnone : ∀ es, shownFrom tbl maxitems emitted es = [] := by
          intro es
          rw [shownFrom, if_neg (Nat.ne_of_gt hfull.1), Nat.sub_eq_zero_of_le hfull.2,
            List.take_zero]
        rw [listStep, if_neg hdot, if_pos hfull, hnone, hcount]
        obtain ⟨hemitted, htotal, hout⟩ := ih first emitted (total + 1) out
        rw [hnone] at hemitted hout
        exact ⟨hemitted, htotal.trans (by rw [List.length_cons]; omega), hout⟩
      · have htaken : shownFrom tbl maxitems emitted (e :: es) =
            e :: shownFrom tbl maxitems (emitted + 1) es := by
          rw [shownFrom, shownFrom, hcount]
          split
          · rfl
          · have hpos : maxitems - emitted = maxitems - (emitted + 1) + 1 := by omega
            rw [hpos, List.take_succ_cons]
        rw [listStep, if_neg hdot, if_neg hfull, htaken, hcount]
        obtain ⟨hemitted, htotal, hout⟩ :=
          ih false (emitted + 1) (total + 1) (out ++ separatedItem tbl first e)
        refine ⟨hemitted.trans ?_, htotal.trans ?_, hout.trans ?_⟩
        · rw [List.length_cons]
          omega
        · rw [List.length_cons]
          omega
        · rw [itemsPieces, List.append_assoc]

theorem items_format {es : List UfsEntry} {vs : List Json.Value} {st : List Json.Frame}
    {t : List Char} {holes : List (List Char)} {s : Json.State} (hr : Json.Room st)
    (hmtime : ∀ e : UfsEntry, tbl.sent (tbl.lit (mtimeText e.mtime)) = mtimeText e.mtime)
    (h : Json.Format ⟨.arr (vs ++ es.map fun e => itemValue tbl e.name e) :: st,
      due (.arr (vs ++ es.map fun e => itemValue tbl e.name e) :: st)⟩ t holes s) :
    Json.Format ⟨.arr vs :: st, due (.arr vs :: st)⟩
      (sentPieces tbl (itemsPieces tbl vs.isEmpty es) ++ t)
      ((es.flatMap fun e => itemHoles tbl e.name e) ++ holes) s := by
  induction es generalizing vs with
  | nil =>
    rw [List.map_nil, List.append_nil] at h
    exact h
  | cons e es ih =>
    have hitem : Json.Format ⟨.obj [] none :: .arr vs :: st, .key true⟩
        (sentPieces tbl (itemPieces tbl e.name e) ++
          ("    \x7d\n".toList ++ (sentPieces tbl (itemsPieces tbl false es) ++ t)))
        (itemHoles tbl e.name e ++ ((es.flatMap fun e => itemHoles tbl e.name e) ++ holes)) s := by
      refine item_format tbl hr (hmtime e) ?_
      have hrest := @ih (vs ++ [itemValue tbl e.name e]) (by
        rw [List.append_assoc]
        exact h)
      have hne : (vs ++ [itemValue tbl e.name e]).isEmpty = false := by simp
      have hdue := (put_after (.arr vs :: st) hr (itemValue tbl e.name e)).1
      rw [hne] at hrest
      exact hdue ▸ hrest
    simp only [itemsPieces, separatedItem, sentPieces_append, sentPieces, Piece.sent,
      List.append_assoc, List.nil_append, List.flatMap_cons, List.cons_append]
    cases vs with
    | nil => exact .fixed (p := "    \x7b\n".toList) rfl hitem
    | cons v vs => exact .fixed (p := "   ,\x7b\n".toList) rfl hitem

/-- The containers a list of items stands in. -/
def listStack : List Json.Frame := [.obj [] (some (Json.units "items".toList)), .doc none]

/-- What follows the items. -/
def tailPieces (returned total : Nat) (more : Bool) : List Piece :=
  [.text "  ],\n".toList,
    .text "  \"returnedRows\": ".toList, .u returned, .text ",\n".toList,
    .text "  \"totalRows\": ".toList, .u total, .text ",\n".toList] ++
  (if more then [.text "  \"moreRows\": true,\n".toList] else []) ++
  [.text "  \"JSONversion\": 1\n".toList, .text "\x7d\n".toList]

theorem tail_format (vs : List Json.Value) (returned total : Nat) :
    Json.Format ⟨.arr vs :: listStack, due (.arr vs :: listStack)⟩
      (sentPieces tbl (tailPieces returned total (decide (returned < total)))) []
      ⟨[.doc (some (listValue vs returned total))], .after⟩ := by
  have hclose : Json.feed ⟨.arr vs :: listStack, due (.arr vs :: listStack)⟩ "  ],\n".toList =
      some ⟨[.obj [(Json.units "items".toList, .arr vs)] none, .doc none], .key false⟩ := by
    cases vs <;> rfl
  rw [tailPieces, listValue]
  by_cases hmore : returned < total
  · rw [decide_eq_true hmore, if_pos rfl, if_pos hmore]
    simp only [sentPieces, Piece.sent, List.cons_append, List.nil_append]
    refine .fixed hclose (.fixed (p := "  \"returnedRows\": ".toList) rfl ?_)
    refine number_format rfl rfl (.fixed (p := "\n".toList) rfl ?_)
    refine .fixed (p := "  \"totalRows\": ".toList) rfl ?_
    refine number_format rfl rfl (.fixed (p := "\n".toList) rfl ?_)
    refine .fixed (p := "  \"moreRows\": true,\n".toList) rfl ?_
    exact .fixed (p := "  \"JSONversion\": 1\n".toList) rfl
      (.fixed (p := "\x7d\n".toList) rfl (.done _))
  · rw [decide_eq_false hmore, if_neg Bool.false_ne_true, if_neg hmore]
    simp only [sentPieces, Piece.sent, List.cons_append, List.nil_append]
    refine .fixed hclose (.fixed (p := "  \"returnedRows\": ".toList) rfl ?_)
    refine number_format rfl rfl (.fixed (p := "\n".toList) rfl ?_)
    refine .fixed (p := "  \"totalRows\": ".toList) rfl ?_
    refine number_format rfl rfl (.fixed (p := "\n".toList) rfl ?_)
    exact .fixed (p := "  \"JSONversion\": 1\n".toList) rfl
      (.fixed (p := "\x7d\n".toList) rfl (.done _))

/-- A list of items as a whole. -/
theorem list_format (es : List UfsEntry) (returned total : Nat)
    (hmtime : ∀ e : UfsEntry, tbl.sent (tbl.lit (mtimeText e.mtime)) = mtimeText e.mtime) :
    Json.Format Json.start (sentPieces tbl ([.text "\x7b\n".toList, .text "  \"items\": [\n".toList] ++
        itemsPieces tbl true es ++ tailPieces returned total (decide (returned < total))))
      ((es.flatMap fun e => itemHoles tbl e.name e) ++ [])
      ⟨[.doc (some (listValue (es.map fun e => itemValue tbl e.name e) returned total))],
        .after⟩ := by
  simp only [sentPieces_append, sentPieces, Piece.sent, List.cons_append, List.nil_append]
  refine .fixed (p := "\x7b\n".toList) rfl (.fixed (p := "  \"items\": [\n".toList)
    (m := ⟨.arr [] :: listStack, due (.arr [] :: listStack)⟩) rfl ?_)
  exact items_format tbl (by trivial) hmtime (tail_format tbl _ returned total)

/-- The characters of a time. -/
def isTimeChar (c : Char) : Bool := c.isDigit || c = '-' || c = ':' || c = 'T' || c = 'Z'

theorem zeroFilled_chars (w : Nat) (n : Int) : ∀ c ∈ zeroFilled w n, isTimeChar c = true := by
  have hdigit : ∀ c ∈ Nat.toDigits 10 n.natAbs, isTimeChar c = true := by
    intro c hc
    have hd : c.isDigit = true := Nat.isDigit_of_mem_toDigits (by decide) (by decide) hc
    simp only [isTimeChar, hd, Bool.true_or]
  have hfilled : ∀ k, ∀ c ∈ List.replicate k '0' ++ Nat.toDigits 10 n.natAbs,
      isTimeChar c = true := by
    intro k c hc
    rcases List.mem_append.mp hc with hc | hc
    · exact List.eq_of_mem_replicate hc ▸ rfl
    · exact hdigit c hc
  intro c hc
  rw [zeroFilled] at hc
  split at hc
  · rcases List.mem_cons.mp hc with rfl | hc
    · rfl
    · exact hfilled _ c hc
  · exact hfilled _ c hc

theorem mtimeText_chars (tm : Option Tm) : ∀ c ∈ mtimeText tm, isTimeChar c = true := by
  cases tm with
  | none => exact List.all_eq_true.mp (by decide +kernel)
  | some tm =>
    intro c hc
    have hc := List.mem_of_mem_take hc
    simp only [List.append_assoc, List.mem_append, List.mem_cons, List.not_mem_nil,
      or_false, List.cons_append] at hc
    rcases hc with hc | rfl | hc | rfl | hc | rfl | hc | rfl | hc | rfl | hc | rfl
    all_goals first
      | exact zeroFilled_chars _ _ c hc
      | rfl

theorem isJsonChar_of_isTimeChar {c : Char} (h : isTimeChar c = true) : isJsonChar c = true := by
  simp only [isTimeChar, Bool.or_eq_true, decide_eq_true_eq] at h
  rcases h with (((h | rfl) | rfl) | rfl) | rfl
  · exact isJsonChar_of_isDigit h
  all_goals rfl

theorem plain_of_isTimeChar {c : Char} (h : isTimeChar c = true) : Json.Plain c := by
  simp only [isTimeChar, Bool.or_eq_true, decide_eq_true_eq] at h
  rcases h with (((h | rfl) | rfl) | rfl) | rfl
  · exact Json.plain_of_isWord (Json.isWord_of_isDigit h)
  all_goals decide

end Read

/-! ## The responses -/

section Responses
variable (tbl : PrintTable)

theorem sent_mtime (e : UfsEntry) :
    tbl.sent (tbl.lit (mtimeText e.mtime)) = mtimeText e.mtime :=
  sent_lit tbl.toJsonTable _
    (List.all_eq_true.mpr fun c hc => isJsonChar_of_isTimeChar (mtimeText_chars e.mtime c hc))

theorem ok_item (name : CStr) (e : UfsEntry) :
    (itemPieces tbl.toJsonTable name e).all Piece.ok = true := rfl

theorem ok_items (first : Bool) (es : List UfsEntry) :
    (itemsPieces tbl.toJsonTable first es).all Piece.ok = true := by
  induction es generalizing first with
  | nil => rfl
  | cons e es ih =>
    rw [itemsPieces, List.all_append, ih, Bool.and_true, separatedItem, List.all_cons,
      List.all_append, ok_item]
    cases first <;> rfl

theorem ok_tail (returned total : Nat) (more : Bool) :
    (tailPieces returned total more).all Piece.ok = true := by
  cases more <;> rfl

theorem itemHoles_plain_iff (name : CStr) (e : UfsEntry) :
    (∀ hole ∈ itemHoles tbl.toJsonTable name e, ∀ c ∈ hole, Json.Plain c) ↔
      ItemVerbatim tbl.toJsonTable name e := by
  have htime : ∀ c ∈ tbl.sent (tbl.lit (mtimeText e.mtime)), Json.Plain c := by
    rw [sent_mtime]
    exact fun c hc => plain_of_isTimeChar (mtimeText_chars e.mtime c hc)
  rw [itemHoles, List.forall_mem_cons, List.forall_mem_cons, List.forall_mem_cons,
    List.forall_mem_cons, List.forall_mem_singleton]
  exact ⟨fun ⟨hn, ha, ho, hg, _⟩ => ⟨hn, ha, ho, hg⟩,
    fun ⟨hn, ha, ho, hg⟩ => ⟨hn, ha, ho, hg, htime⟩⟩

/-- A list of items is read as what it is meant to be just where no name in it needs an escape. -/
theorem list_read_iff (es : List UfsEntry) (returned total : Nat) {ps : List Piece}
    (hok : ps.all Piece.ok = true)
    (hps : sentPieces tbl.toJsonTable ps = sentPieces tbl.toJsonTable
      ([.text "\x7b\n".toList, .text "  \"items\": [\n".toList] ++
        itemsPieces tbl.toJsonTable true es ++
          tailPieces returned total (decide (returned < total)))) :
    Json.parse (tbl.sent (printed tbl.toJsonTable ps)) =
        some (listValue (es.map fun e => itemValue tbl.toJsonTable e.name e) returned total) ↔
      ∀ e ∈ es, ItemVerbatim tbl.toJsonTable e.name e := by
  rw [sent_printed tbl hok, hps, Json.parse,
    (list_format tbl.toJsonTable es returned total (sent_mtime tbl)).read_iff rfl]
  simp only [List.append_nil, List.mem_flatMap]
  constructor
  · exact fun h e he => (itemHoles_plain_iff tbl e.name e).mp fun hole hh => h hole ⟨e, he, hh⟩
  · rintro h hole ⟨e, he, hh⟩
    exact (itemHoles_plain_iff tbl e.name e).mpr (h e he) hole hh

theorem ussListHandler_pieces (maxitems : Nat) (entries : List UfsEntry) :
    ussListHandler tbl.toJsonTable maxitems entries =
      [.text "\x7b\n".toList, .text "  \"items\": [\n".toList] ++
        itemsPieces tbl.toJsonTable true (shown tbl.toJsonTable maxitems entries) ++
          tailPieces (shown tbl.toJsonTable maxitems entries).length
            (counted tbl.toJsonTable entries).length
            (decide ((shown tbl.toJsonTable maxitems entries).length <
              (counted tbl.toJsonTable entries).length)) := by
  have hfrom : shownFrom tbl.toJsonTable maxitems 0 entries =
      shown tbl.toJsonTable maxitems entries := rfl
  obtain ⟨hemitted, htotal, hout⟩ := foldl_listStep tbl.toJsonTable maxitems entries true 0 0 []
  rw [hfrom, Nat.zero_add] at hemitted
  rw [Nat.zero_add] at htotal
  rw [hfrom, List.nil_append] at hout
  have hmore : (maxitems > 0 ∧ (shown tbl.toJsonTable maxitems entries).length <
      (counted tbl.toJsonTable entries).length) ↔
      (shown tbl.toJsonTable maxitems entries).length <
        (counted tbl.toJsonTable entries).length := by
    refine and_iff_right_of_imp fun hlt => Nat.pos_of_ne_zero fun h0 => ?_
    rw [shown, if_pos h0] at hlt
    exact absurd hlt (Nat.lt_irrefl _)
  simp only [ussListHandler, hemitted, htotal, hout, hmore, tailPieces, decide_eq_true_eq,
    List.append_assoc]

/-- A status is sent as a list of one item. -/
theorem ussStatFile_sent (path : CStr) (e : UfsEntry) :
    sentPieces tbl.toJsonTable (ussStatFile tbl.toJsonTable path e) =
      sentPieces tbl.toJsonTable ([.text "\x7b\n".toList, .text "  \"items\": [\n".toList] ++
        itemsPieces tbl.toJsonTable true [{ e with name := path }] ++ tailPieces 1 1 false) := by
  have htail : sentPieces tbl.toJsonTable [.text "  ],\n".toList,
      .text "  \"returnedRows\": 1,\n".toList, .text "  \"totalRows\": 1,\n".toList,
      .text "  \"JSONversion\": 1\n".toList, .text "\x7d\n".toList] =
        sentPieces tbl.toJsonTable (tailPieces 1 1 false) := by
    have hreturned : "  \"returnedRows\": 1,\n".toList =
        "  \"returnedRows\": ".toList ++ (Json.decimal (1 : Nat) ++ ",\n".toList) := rfl
    have htotal : "  \"totalRows\": 1,\n".toList =
        "  \"totalRows\": ".toList ++ (Json.decimal (1 : Nat) ++ ",\n".toList) := rfl
    rw [hreturned, htotal]
    simp only [tailPieces, Bool.false_eq_true, if_false, sentPieces, Piece.sent, List.append_assoc,
      List.cons_append, List.nil_append]
  rw [sentPieces_append, sentPieces_append, ← htail, ussStatFile, sentPieces_append,
    sentPieces_append, itemsPieces, itemsPieces, separatedItem, List.append_nil]
  simp only [sentPieces, sentPieces_append, List.append_assoc, List.append_nil]
  rfl

/-- The containers the line of a tag stands in. -/
def tagStack : List Json.Frame := [.arr [], .obj [] (some (Json.units "stdout".toList)), .doc none]

def tagValue (us : List Nat) : Json.Value :=
  .obj [(Json.units "stdout".toList, .arr [.str us])]

theorem chtag_sent (filepath : CStr) :
    Json.parse (tbl.sent (printed tbl.toJsonTable (ussHandleChtag tbl.toJsonTable filepath))) =
      Json.read ⟨tagStack, .chars false []⟩
        (tbl.sent (tagline tbl.toJsonTable filepath) ++ '"' :: "]\x7d\n".toList) := by
  have hfeed : Json.feed Json.start "\x7b\"stdout\":[\"".toList =
      some ⟨tagStack, .chars false []⟩ := rfl
  rw [sent_printed tbl rfl]
  simp only [ussHandleChtag, sentPieces, Piece.sent, List.append_nil]
  rw [Json.parse, Json.read_append, hfeed, Option.bind_some]
  rfl

/-- A string that is longer than the line is not read from it. -/
theorem tag_cut {line : List Char} {us : List Nat} (h : line.length < us.length) :
    Json.read ⟨tagStack, .chars false []⟩ (line ++ '"' :: "]\x7d\n".toList) ≠ some (tagValue us) := by
  intro hread
  obtain ⟨body, us', t, heq, hbody, hread⟩ := Json.read_chars hread
  have hfeed : Json.feed ⟨Json.put tagStack (.str us), .after⟩ "]\x7d\n".toList =
      some ⟨[.doc (some (tagValue us))], .after⟩ := rfl
  have hwithin : Json.Within (Json.put tagStack (.str us)) (tagValue us) :=
    Json.feed_within hfeed (.done (tagValue us))
  have hwithin' : Json.Within (Json.put tagStack (.str us')) (tagValue us) :=
    Json.read_within hread
  obtain rfl : us' = us := Json.Value.str.inj (Json.Within.put_inj (by trivial) hwithin' hwithin)
  have hle := hbody.length_le.1
  -- no quote comes behind the one of the format
  rcases List.append_eq_append_iff.mp heq with ⟨x, rfl, hx⟩ | ⟨x, rfl, -⟩
  · cases x with
    | nil =>
      rw [List.append_nil] at hle
      omega
    | cons c x =>
      obtain ⟨-, hx⟩ := List.cons.inj hx
      have hq : '"' ∈ "]\x7d\n".toList := hx ▸ List.mem_append_right _ List.mem_cons_self
      exact absurd hq (by decide)
  · rw [List.length_append] at h
    omega

theorem tag_format (line : List Char) :
    Json.Format ⟨tagStack, .chars false []⟩ (line ++ '"' :: "]\x7d\n".toList) [line]
      ⟨[.doc (some (tagValue (Json.units line)))], .after⟩ := by
  rw [← List.append_nil "]\x7d\n".toList]
  exact .hole trivial (.fixed rfl (.done _))

theorem chtag_read_iff (filepath : CStr) :
    Json.parse (tbl.sent (printed tbl.toJsonTable (ussHandleChtag tbl.toJsonTable filepath))) =
        some (tagValue (Json.units "- untagged    T=off ".toList ++
          tbl.unitsOf filepath.bytes)) ↔
      Verbatim tbl.toJsonTable filepath ∧ filepath.bytes.length + 20 < TAGLINE_SIZE := by
  have hlit : tbl.sent (tbl.lit "- untagged    T=off ".toList) = "- untagged    T=off ".toList :=
    sent_text_lit tbl rfl
  have hlen : (tbl.lit "- untagged    T=off ".toList).length = 20 := rfl
  rw [chtag_sent]
  by_cases hfits : filepath.bytes.length + 20 < TAGLINE_SIZE
  · have hline : tbl.sent (tagline tbl.toJsonTable filepath) =
        "- untagged    T=off ".toList ++ tbl.sent filepath.bytes := by
      rw [tagline, List.take_of_length_le, sent_append, hlit]
      rw [List.length_append, hlen]
      omega
    have hunits : Json.units (tbl.sent (tagline tbl.toJsonTable filepath)) =
        Json.units "- untagged    T=off ".toList ++ tbl.unitsOf filepath.bytes := by
      rw [hline, Json.units, List.map_append, ← units_sent]
      rfl
    rw [and_iff_left hfits, ← hunits, (tag_format _).read_iff rfl, List.forall_mem_singleton, hline,
      Verbatim]
    have hall : "- untagged    T=off ".toList.all (fun c => decide (Json.Plain c)) = true := by
      decide +kernel
    have hplain : ∀ c ∈ "- untagged    T=off ".toList, Json.Plain c := fun c hc =>
      of_decide_eq_true (List.all_eq_true.mp hall c hc)
    exact ⟨fun h c hc => h c (List.mem_append_right _ hc),
      fun h c hc => (List.mem_append.mp hc).elim (hplain c) (h c)⟩
  · refine iff_of_false (tag_cut ?_) fun h => hfits h.2
    have hline : (tbl.sent (tagline tbl.toJsonTable filepath)).length ≤ TAGLINE_SIZE - 1 := by
      rw [JsonTable.sent, List.length_map, tagline]
      exact List.length_take_le _ _
    rw [List.length_append, JsonTable.unitsOf, List.length_map, Json.units, List.length_map]
    have h20 : "- untagged    T=off ".toList.length = 20 := rfl
    rw [h20]
    omega

end Responses

/-- A response is read as what it is meant to be if and only if no name, path, mode, owner or group
in it needs an escape, and the path of a tag fits its line. -/
theorem ussJson_iff (tbl : PrintTable) (r : UssResponse) :
    Json.parse (tbl.sent (printed tbl.toJsonTable (r.pieces tbl.toJsonTable))) =
      some (r.value tbl.toJsonTable) ↔ r.Clean tbl.toJsonTable := by
  cases r with
  | listing maxitems entries =>
    have hok : (ussListHandler tbl.toJsonTable maxitems entries).all Piece.ok = true := by
      rw [ussListHandler_pieces, List.all_append, List.all_append, ok_items, ok_tail]
      rfl
    exact list_read_iff tbl _ _ _ hok (congrArg _ (ussListHandler_pieces tbl maxitems entries))
  | stat path e =>
    have hok : (ussStatFile tbl.toJsonTable path e).all Piece.ok = true := by
      rw [ussStatFile, List.all_append, List.all_append, ok_item]
      rfl
    have hiff := list_read_iff tbl [{ e with name := path }] 1 1 hok (ussStatFile_sent tbl path e)
    rw [List.forall_mem_singleton] at hiff
    exact hiff
  | chtag filepath => exact chtag_read_iff tbl filepath

/-! ## A name with a quote -/

/-- The host of code page 037. -/
def PrintTable.cp037 : PrintTable :=
  { JsonTable.cp037 with
    mapsText := fun c _ => HttpCp.cp037_etoa_atoe (UInt8.ofNat c.toNat) }

/-- A file whose name is `a"b`. -/
def quoteFile : UfsEntry where
  name := ⟨[0x81, 0x7F, 0x82], by decide⟩
  attr := ⟨[0x99, 0xA6, 0x60], by decide⟩
  filesize := 0
  owner := ⟨[0xC9, 0xC2, 0xD4], by decide⟩
  group := ⟨[0xE2, 0xE8, 0xE2], by decide⟩
  nlink := 1
  mtime := none
  inodeNumber := 7

/-- The listing of its directory is no JSON. -/
theorem quoteFile_unread : Json.parse (PrintTable.cp037.sent (printed PrintTable.cp037.toJsonTable
    ((UssResponse.listing 1000 [quoteFile]).pieces PrintTable.cp037.toJsonTable))) = none := by
  have hok : (ussListHandler PrintTable.cp037.toJsonTable 1000 [quoteFile]).all Piece.ok =
      true := by
    rw [ussListHandler_pieces, List.all_append, List.all_append, ok_items, ok_tail]
    rfl
  have hname : PrintTable.cp037.sent quoteFile.name.bytes = ['a', '"', 'b'] := by decide +kernel
  have hdot : isDot PrintTable.cp037.toJsonTable quoteFile.name = false := by decide +kernel
  have hshown : shown PrintTable.cp037.toJsonTable 1000 [quoteFile] = [quoteFile] := by
    simp only [shown, counted, List.filter_cons, hdot]
    rfl
  -- the name ends at its quote, and `b` is no separator
  have hfeed : Json.feed Json.start
      "\x7b\n  \"items\": [\n    \x7b\n      \"name\": \"a\"b".toList = none := rfl
  have htext : ∀ tail, ∃ rest, sentPieces PrintTable.cp037.toJsonTable
      ([.text "\x7b\n".toList, .text "  \"items\": [\n".toList] ++
        itemsPieces PrintTable.cp037.toJsonTable true [quoteFile] ++ tail) =
      "\x7b\n  \"items\": [\n    \x7b\n      \"name\": \"a\"b".toList ++ rest := by
    intro tail
    simp only [itemsPieces, separatedItem, itemPieces, sentPieces, Piece.sent, hname,
      List.cons_append, List.nil_append]
    exact ⟨_, rfl⟩
  change Json.parse (PrintTable.cp037.sent (printed _ (ussListHandler _ _ _))) = none
  obtain ⟨rest, hrest⟩ := htext (tailPieces [quoteFile].length
    (counted PrintTable.cp037.toJsonTable [quoteFile]).length
    (decide ([quoteFile].length < (counted PrintTable.cp037.toJsonTable [quoteFile]).length)))
  rw [sent_printed _ hok, ussListHandler_pieces, hshown, hrest, Json.parse, Json.read_append, hfeed]
  rfl

end Mvsmf
