import Mvsmf.Dsapi.MemberScan
import Mvsmf.Ussapi.UssRead
import Mathlib

/-!
# The document of a member list

The list goes out while the directory is read: an item is printed when its entry is found, and how
many there were is known behind the last one. A directory may hold any bytes, so every name is
escaped first, and the document is read as the members of the scan whatever they are.
-/

namespace Mvsmf

/-! ## What is printed -/

/-- A table that maps NUL and the stroke of a date too. -/
structure MemberTable extends PrintTable where
  nul : toPrintTable.toJsonTable.translate 0 = 0
  slash : toPrintTable.toJsonTable.translate (toPrintTable.toJsonTable.host '/') = 0x2F

/-- 8 name bytes, each at worst six characters, and the terminator. -/
def MEMBER_ESC_SIZE : Nat := 8 * 6 + 1

section Printed
variable (tbl : JsonTable)

/-- The escaped bytes as `%s` prints them, up to a NUL. -/
def escapedName (raw : List UInt8) : List UInt8 :=
  (jsonEscapeBytes tbl MEMBER_ESC_SIZE raw true).takeWhile (· != 0)

def writeMemberStats (member : List UInt8) (st : IspfStats) : List Piece :=
  [.text "      \"member\": \"".toList, .s member,
    .text "\",\n      \"vers\": ".toList, .u st.vers,
    .text ",\n      \"mod\": ".toList, .u st.mod,
    .text ",\n      \"c4date\": \"".toList, .s (tbl.lit st.c4date),
    .text "\",\n      \"m4date\": \"".toList, .s (tbl.lit st.m4date),
    .text "\",\n      \"cnorc\": ".toList, .u st.cnorc,
    .text ",\n      \"inorc\": ".toList, .u st.inorc,
    .text ",\n      \"mnorc\": ".toList, .u st.mnorc,
    .text ",\n      \"mtime\": \"".toList, .s (tbl.lit st.mtime),
    .text "\",\n      \"msec\": \"".toList, .s (tbl.lit st.msec),
    .text "\",\n      \"user\": \"".toList, .s (escapedName tbl st.user),
    .text "\",\n      \"sclm\": \"".toList, .s (tbl.lit [if st.sclm then 'Y' else 'N']),
    .text "\"\n".toList]

def writeMember (item : MemberItem) : List Piece :=
  match item.stats with
  | some st => writeMemberStats tbl (escapedName tbl item.member) st
  | none =>
    [.text "      \"member\": \"".toList, .s (escapedName tbl item.member), .text "\"\n".toList]

/-- The items in a row. -/
def writeMembers : Bool → List MemberItem → List Piece
  | _, [] => []
  | first, item :: items =>
    .text (if first then "    \x7b\n".toList else "   ,\x7b\n".toList) ::
      (writeMember tbl item ++ .text "    \x7d\n".toList :: writeMembers false items)

/-- What is printed behind the items. -/
def memberTail (emitted : Nat) (more : Bool) : List Piece :=
  [.text "  ],\n".toList, .text "  \"returnedRows\": ".toList, .u emitted, .text ",\n".toList] ++
  (if more then [.text "  \"moreRows\": true,\n".toList] else []) ++
  [.text "  \"JSONversion\": 1\n".toList, .text "\x7d \n".toList]

/-- What `memberListHandler` prints behind its headers; `none` where the scan failed and the
connection is given up. -/
def memberListDocument (req : ScanRequest) (blk : Block) (reads : List BlockRead) (ferror : Bool) :
    Except Fault (Option (List Piece)) := do
  let (scanned, items) ← memberScan req blk reads ferror
  if scanned < 0 then return none
  let maxitems := req.page.toNat
  let truncated := decide (maxitems > 0 ∧ scanned.toNat > maxitems)
  let emitted := if truncated then maxitems else scanned.toNat
  return some
    ([.text "\x7b\n".toList, .text "  \"items\": [\n".toList] ++ writeMembers tbl true items ++
      memberTail emitted truncated)

end Printed

/-! ## What it is meant to say -/

section Meaning
variable (tbl : JsonTable)

def memberEntry (item : MemberItem) : List Nat × Json.Value :=
  (Json.units "member".toList, .str (tbl.unitsOf item.member))

def statsEntries (st : IspfStats) : List (List Nat × Json.Value) :=
  [(Json.units "vers".toList, .num st.vers 0), (Json.units "mod".toList, .num st.mod 0),
    (Json.units "c4date".toList, .str (Json.units st.c4date)),
    (Json.units "m4date".toList, .str (Json.units st.m4date)),
    (Json.units "cnorc".toList, .num st.cnorc 0), (Json.units "inorc".toList, .num st.inorc 0),
    (Json.units "mnorc".toList, .num st.mnorc 0),
    (Json.units "mtime".toList, .str (Json.units st.mtime)),
    (Json.units "msec".toList, .str (Json.units st.msec)),
    (Json.units "user".toList, .str (tbl.unitsOf st.user)),
    (Json.units "sclm".toList, .str (Json.units [if st.sclm then 'Y' else 'N']))]

/-- A member without statistics has its name alone. -/
def memberValue (item : MemberItem) : Json.Value :=
  .obj (memberEntry tbl item :: (item.stats.elim [] (statsEntries tbl)))

/-- `seen` is how many members were found, one behind the page included. -/
def memberListValue (page seen : Nat) (items : List MemberItem) : Json.Value :=
  .obj ([(Json.units "items".toList, .arr (items.map (memberValue tbl))),
    (Json.units "returnedRows".toList, .num items.length 0)] ++
    (if page > 0 ∧ seen > page then [(Json.units "moreRows".toList, .bool true)] else []) ++
    [(Json.units "JSONversion".toList, .num 1 0)])

end Meaning

/-! ## The items of a scan -/

/-- The characters of the dates and times of the statistics. -/
def isStampChar (c : Char) : Bool := c.isDigit || c = '/' || c = ':'

/-- The texts have no other characters, and the user's name fits its field. -/
structure IspfStats.Printable (st : IspfStats) : Prop where
  c4date : ∀ c ∈ st.c4date, isStampChar c = true
  m4date : ∀ c ∈ st.m4date, isStampChar c = true
  mtime : ∀ c ∈ st.mtime, isStampChar c = true
  msec : ∀ c ∈ st.msec, isStampChar c = true
  user : st.user.length ≤ 8

structure MemberItem.Printable (item : MemberItem) : Prop where
  member : item.member.length ≤ MAX_MEMBER_NAME
  stats : ∀ st ∈ item.stats, st.Printable

/-- So many members were seen, and as many of them written as the page has room for. -/
structure ScanState.Written (req : ScanRequest) (s : ScanState) : Prop where
  count : s.items.length = if req.page.toNat = 0 then s.seen else min s.seen req.page.toNat
  printable : ∀ item ∈ s.items, item.Printable

theorem put2_chars (v : Nat) : ∀ c ∈ put2 v, isStampChar c = true := by
  have hdigit : ∀ d < 10, isStampChar (Char.ofNat ('0'.toNat + d)) = true := by decide
  intro c hc
  rw [put2, List.mem_cons, List.mem_singleton] at hc
  rcases hc with rfl | rfl
  · exact hdigit _ (Nat.mod_lt _ (by decide))
  · exact hdigit _ (Nat.mod_lt _ (by decide))

theorem formatDate_chars {cent d0 d1 d2 : UInt8} {date : List Char}
    (h : formatDate cent d0 d1 d2 = some date) : ∀ c ∈ date, isStampChar c = true := by
  have hdate : ∀ year month day : Nat, ∀ c ∈ put2 (year / 100) ++ put2 year ++ ['/'] ++
      put2 (month + 1) ++ ['/'] ++ put2 day, isStampChar c = true := by
    intro year month day c hc
    simp only [List.mem_append, List.mem_singleton] at hc
    rcases hc with ((((hc | hc) | rfl) | hc) | rfl) | hc
    · exact put2_chars _ c hc
    · exact put2_chars _ c hc
    · rfl
    · exact put2_chars _ c hc
    · rfl
    · exact put2_chars _ c hc
  rw [formatDate] at h
  obtain ⟨-, h⟩ := Option.ite_none_left_eq_some.mp h
  simp only [Option.bind_eq_bind, Option.bind_eq_some_iff] at h
  obtain ⟨yy, -, dd, -, h⟩ := h
  obtain ⟨-, h⟩ := Option.ite_none_left_eq_some.mp h
  obtain ⟨-, h⟩ := Option.ite_none_left_eq_some.mp h
  obtain rfl := Option.some.inj h
  exact hdate _ _ _

theorem ispfStatsParse_printable {entry : List UInt8} {st : IspfStats}
    (h : ispfStatsParse entry = some st) : st.Printable := by
  rw [ispfStatsParse] at h
  obtain ⟨-, h⟩ := Option.ite_none_left_eq_some.mp h
  obtain ⟨-, h⟩ := Option.ite_none_left_eq_some.mp h
  obtain ⟨-, h⟩ := Option.ite_none_left_eq_some.mp h
  obtain ⟨-, h⟩ := Option.ite_none_left_eq_some.mp h
  simp only [Option.bind_eq_bind, Option.bind_eq_some_iff] at h
  obtain ⟨sec, -, hh, -, mm, -, h⟩ := h
  obtain ⟨-, h⟩ := Option.ite_none_left_eq_some.mp h
  simp only [Option.bind_eq_some_iff] at h
  obtain ⟨c4date, hc4, m4date, hm4, h⟩ := h
  obtain rfl := Option.some.inj h
  refine ⟨formatDate_chars hc4, formatDate_chars hm4, ?_, put2_chars sec, ?_⟩
  · intro c hc
    simp only [List.mem_append, List.mem_singleton] at hc
    rcases hc with (hc | rfl) | hc
    · exact put2_chars _ c hc
    · rfl
    · exact put2_chars _ c hc
  · exact ( List.rdropWhile_prefix _ _).length_le.trans (List.length_take_le _ _)

/-- A turn of the scan writes a member if the page has room for it. -/
theorem turn_written {req : ScanRequest} {name : List UInt8} {stats : Option IspfStats}
    {s : ScanState} (hname : name.length ≤ MAX_MEMBER_NAME) (hstats : ∀ st ∈ stats, st.Printable)
    (h : s.Written req) : (req.turn name stats s).2.Written req := by
  obtain ⟨hcount, hprintable⟩ := h
  rw [ScanRequest.turn]
  split
  · exact ⟨hcount, hprintable⟩
  · split
    · exact ⟨hcount, hprintable⟩
    · have hitem : ∀ item ∈ s.items ++ [⟨unpadded name, stats⟩], item.Printable := by
        intro item hitem
        rcases List.mem_append.mp hitem with hitem | hitem
        · exact hprintable item hitem
        · rw [List.mem_singleton.mp hitem]
          exact ⟨( unpadded_prefix name).length_le.trans hname, hstats⟩
      dsimp only
      split
      · next hroom =>
        refine ⟨?_, hitem⟩
        change (s.items ++ [_]).length = if req.page.toNat = 0 then s.seen + 1 else
          min (s.seen + 1) req.page.toNat
        rw [List.length_append, List.length_singleton, hcount]
        split <;> omega
      · next hfull =>
        refine ⟨?_, hprintable⟩
        change s.items.length = if req.page.toNat = 0 then s.seen + 1 else
          min (s.seen + 1) req.page.toNat
        rw [hcount]
        split <;> omega

theorem entryStats_printable (req : ScanRequest) (blk : Block) (pos : Nat) :
    ∀ st ∈ blk.entryStats req pos, st.Printable := by
  intro st hst
  rw [Block.entryStats] at hst
  split at hst
  · exact ispfStatsParse_printable hst
  · cases hst

theorem scanEntries_step {req : ScanRequest} (blk : Block) (pos : Nat) {s : ScanState}
    (h : s.Written req) :
    match (scanEntries req blk).step (pos, s) with
    | .inl (_, s') => s'.Written req
    | .inr (.ok (_, s')) => s'.Written req
    | .inr (.error _) => True := by
  have hname : (blk.entryName pos).length ≤ MAX_MEMBER_NAME := List.length_take_le _ _
  have hturn := turn_written hname (entryStats_printable req blk pos) h
  simp only [scanEntries]
  by_cases hused : pos + PDS_DIR_ENT_FIXED ≤ blk.used
  · rw [if_pos hused, scanEntry_eq _ _ hused]
    by_cases hend : blk.entryName pos = END_MARK
    · rw [if_pos hend]
      exact h
    · rw [if_neg hend]
      rcases hnext : req.turn (blk.entryName pos) (blk.entryStats req pos) s with ⟨ended, s'⟩
      rw [hnext] at hturn
      cases ended with
      | true => exact hturn
      | false => exact hturn
  · rw [if_neg hused]
    exact h

theorem scanEntries_written {req : ScanRequest} {blk : Block} {pos : Nat} {s s' : ScanState}
    {ended : Bool} (h : s.Written req)
    (hexec : (scanEntries req blk).exec (pos, s) = .ok (ended, s')) : s'.Written req := by
  have hrule := (scanEntries req blk).rule
    (P := fun p r => p.2.Written req → ∀ ended s', r = .ok (ended, s') → s'.Written req)
    ?_ ?_ (pos, s)
  · exact hrule h ended s' hexec
  · rintro ⟨pos, s⟩ r hstep hs ended s' rfl
    have hleft := scanEntries_step blk pos hs
    rw [hstep] at hleft
    exact hleft
  · rintro ⟨pos, s⟩ ⟨pos', s₁⟩ hstep ih hs
    have hleft := scanEntries_step blk pos hs
    rw [hstep] at hleft
    exact ih hleft

theorem scanBlocks_written {req : ScanRequest} {blk : Block} {reads : List BlockRead}
    {s s' : ScanState} (h : s.Written req) (hscan : scanBlocks req blk reads s = .ok s') :
    s'.Written req := by
  induction reads generalizing blk s with
  | nil =>
    obtain rfl := Except.ok.inj hscan
    exact h
  | cons r rest ih =>
    rw [scanBlocks] at hscan
    split at hscan
    · obtain rfl := Except.ok.inj hscan
      exact h
    · obtain ⟨⟨ended, s₁⟩, hexec⟩ := scanEntries_ok req (blk.fread r) (2, s)
      have hwritten := scanEntries_written h hexec
      simp only [hexec] at hscan
      cases ended with
      | true =>
        obtain rfl := Except.ok.inj hscan
        exact hwritten
      | false => exact ih hwritten hscan

/-! ## How it is read -/

/-- An escaped text between its quotes. -/
theorem text_format {st : List Json.Frame} {text t : List Char} {us : List Nat}
    {holes : List (List Char)} {s : Json.State} (h : Json.Chars text us)
    (hrest : Json.Format ⟨Json.put st (.str us), .after⟩ t holes s) :
    Json.Format ⟨st, .chars false []⟩ (text ++ '"' :: t) holes s := by
  rw [List.append_cons]
  refine .fixed ?_ hrest
  rw [Json.feed_append, h.feed, Option.bind_some, List.nil_append]
  rfl

section Read
variable (tbl : MemberTable)

/-- A NUL of the directory is escaped, too. -/
theorem zero_notMem_escaped (b : UInt8) : 0 ∉ escapeChar tbl.toJsonTable true b := by
  by_cases hb : b = 0
  · have hnul : escapeChar tbl.toJsonTable true 0 = tbl.lit ['\\', 'u', '0', '0', '0', '0'] := by
      simp only [escapeChar, tbl.nul]
      rfl
    rw [hb, hnul]
    exact zero_notMem_lit _ _ rfl
  · exact zero_notMem_escapeChar tbl.toJsonTable hb true

theorem length_escaped_le (raw : List UInt8) :
    (raw.flatMap (escapeChar tbl.toJsonTable true)).length ≤ JSON_ESC_MAX * raw.length := by
  induction raw with
  | nil => exact Nat.zero_le _
  | cons b raw ih =>
    have hb := length_escapeChar_le tbl.toJsonTable true b
    rw [List.flatMap_cons, List.length_append, List.length_cons, Nat.mul_succ]
    omega

/-- A name of eight bytes fits its buffer, whatever has to be escaped. -/
theorem escapedName_chars {raw : List UInt8} (h : raw.length ≤ 8) :
    Json.Chars (tbl.sent (escapedName tbl.toJsonTable raw)) (tbl.unitsOf raw) := by
  obtain ⟨k, hk, heq, hchars, -, hcut⟩ :=
    jsonEscapeBytes_law tbl.toJsonTable MEMBER_ESC_SIZE raw true
  have hle := length_escaped_le tbl (raw.take k)
  rw [List.length_take, Nat.min_eq_left hk] at hle
  have hwhole : k = raw.length := by
    by_contra hne
    have hlt : k < raw.length := lt_of_le_of_ne hk hne
    have hroom := hcut hlt
    rw [heq] at hroom
    simp only [MEMBER_ESC_SIZE, JSON_ESC_MAX] at hroom hle
    omega
  have hnul : escapedName tbl.toJsonTable raw =
      jsonEscapeBytes tbl.toJsonTable MEMBER_ESC_SIZE raw true := by
    rw [escapedName, List.takeWhile_eq_self_iff, heq]
    intro b hb
    obtain ⟨c, -, hc⟩ := List.mem_flatMap.mp hb
    exact bne_iff_ne.mpr fun h0 => zero_notMem_escaped tbl c (h0 ▸ hc)
  rw [hnul]
  rwa [hwhole, List.take_length] at hchars

theorem stamp_chars {cs : List Char} (h : ∀ c ∈ cs, isStampChar c = true) :
    Json.Chars (tbl.sent (tbl.lit cs)) (Json.units cs) := by
  have hsent : tbl.sent (tbl.lit cs) = cs := by
    refine sent_lit_of tbl.toJsonTable fun c hc => ?_
    have hstamp := h c hc
    simp only [isStampChar, Bool.or_eq_true, decide_eq_true_eq] at hstamp
    rcases hstamp with (hdigit | rfl) | rfl
    · have hj := isJsonChar_of_isDigit hdigit
      exact ⟨isJsonChar_lt hj, tbl.maps c hj⟩
    · exact ⟨by decide, tbl.slash⟩
    · exact ⟨by decide, tbl.maps ':' rfl⟩
  rw [hsent]
  refine .of_plain fun c hc => ?_
  have hstamp := h c hc
  simp only [isStampChar, Bool.or_eq_true, decide_eq_true_eq] at hstamp
  rcases hstamp with (hdigit | rfl) | rfl
  · exact Json.plain_of_isWord (Json.isWord_of_isDigit hdigit)
  · decide
  · decide

theorem flag_chars (b : Bool) :
    Json.Chars (tbl.sent (tbl.lit [if b then 'Y' else 'N']))
      (Json.units [if b then 'Y' else 'N']) := by
  have hflag : [if b then 'Y' else 'N'].all isJsonChar = true := by cases b <;> rfl
  rw [sent_lit tbl.toJsonTable _ hflag]
  refine .of_plain (List.forall_mem_singleton.mpr ?_)
  cases b <;> decide

/-- An item is read as the member with its statistics. -/
theorem member_format {item : MemberItem} (hitem : item.Printable) {st : List Json.Frame}
    {t : List Char} {s : Json.State}
    (h : Json.Format ⟨Json.put st (memberValue tbl.toJsonTable item), .after⟩ t [] s) :
    Json.Format ⟨.obj [] none :: st, .key true⟩
      (sentPieces tbl.toJsonTable (writeMember tbl.toJsonTable item) ++ ("    \x7d\n".toList ++ t))
      [] s := by
  obtain ⟨member, stats⟩ := item
  have hname := escapedName_chars tbl hitem.member
  cases stats with
  | none =>
    simp only [writeMember, sentPieces, Piece.sent, List.append_assoc, List.nil_append]
    refine .fixed (m := ⟨.obj [] (some (Json.units "member".toList)) :: st, .chars false []⟩)
      rfl ?_
    refine text_format hname (.fixed (p := "\n".toList) rfl ?_)
    exact .fixed (p := "    \x7d\n".toList) rfl h
  | some st' =>
    obtain ⟨hc4, hm4, hmtime, hmsec, huser⟩ := hitem.stats st' rfl
    simp only [writeMember, writeMemberStats, sentPieces, Piece.sent, List.append_assoc,
      List.nil_append]
    refine .fixed (m := ⟨.obj [] (some (Json.units "member".toList)) :: st, .chars false []⟩)
      rfl ?_
    refine text_format hname (.fixed (p := ",\n      \"vers\": ".toList) rfl ?_)
    refine number_format rfl rfl (.fixed (p := "\n      \"mod\": ".toList) rfl ?_)
    refine number_format rfl rfl (.fixed (p := "\n      \"c4date\": \"".toList) rfl ?_)
    refine text_format (stamp_chars tbl hc4)
      (.fixed (p := ",\n      \"m4date\": \"".toList) rfl ?_)
    refine text_format (stamp_chars tbl hm4)
      (.fixed (p := ",\n      \"cnorc\": ".toList) rfl ?_)
    refine number_format rfl rfl (.fixed (p := "\n      \"inorc\": ".toList) rfl ?_)
    refine number_format rfl rfl (.fixed (p := "\n      \"mnorc\": ".toList) rfl ?_)
    refine number_format rfl rfl (.fixed (p := "\n      \"mtime\": \"".toList) rfl ?_)
    refine text_format (stamp_chars tbl hmtime)
      (.fixed (p := ",\n      \"msec\": \"".toList) rfl ?_)
    refine text_format (stamp_chars tbl hmsec)
      (.fixed (p := ",\n      \"user\": \"".toList) rfl ?_)
    refine text_format (escapedName_chars tbl huser)
      (.fixed (p := ",\n      \"sclm\": \"".toList) rfl ?_)
    refine text_format (flag_chars tbl st'.sclm) (.fixed (p := "\n".toList) rfl ?_)
    exact .fixed (p := "    \x7d\n".toList) rfl h

theorem members_format {items : List MemberItem} (hitems : ∀ item ∈ items, item.Printable)
    {vs : List Json.Value} {st : List Json.Frame} {t : List Char} {s : Json.State}
    (hr : Json.Room st)
    (h : Json.Format ⟨.arr (vs ++ items.map (memberValue tbl.toJsonTable)) :: st,
      due (.arr (vs ++ items.map (memberValue tbl.toJsonTable)) :: st)⟩ t [] s) :
    Json.Format ⟨.arr vs :: st, due (.arr vs :: st)⟩
      (sentPieces tbl.toJsonTable (writeMembers tbl.toJsonTable vs.isEmpty items) ++ t) [] s := by
  induction items generalizing vs with
  | nil =>
    rw [List.map_nil, List.append_nil] at h
    exact h
  | cons item items ih =>
    obtain ⟨hitem, hitems⟩ := List.forall_mem_cons.mp hitems
    have hmember : Json.Format ⟨.obj [] none :: .arr vs :: st, .key true⟩
        (sentPieces tbl.toJsonTable (writeMember tbl.toJsonTable item) ++ ("    \x7d\n".toList ++
          (sentPieces tbl.toJsonTable (writeMembers tbl.toJsonTable false items) ++ t))) [] s := by
      refine member_format tbl hitem ?_
      have hrest := @ih hitems (vs ++ [memberValue tbl.toJsonTable item]) (by
        rw [List.append_assoc]
        exact h)
      have hne : (vs ++ [memberValue tbl.toJsonTable item]).isEmpty = false := by simp
      have hdue := (put_after (.arr vs :: st) hr (memberValue tbl.toJsonTable item)).1
      rw [hne] at hrest
      exact hdue ▸ hrest
    simp only [writeMembers, sentPieces_append, sentPieces, Piece.sent, List.append_assoc]
    cases vs with
    | nil => exact .fixed (p := "    \x7b\n".toList) rfl hmember
    | cons v vs => exact .fixed (p := "   ,\x7b\n".toList) rfl hmember

theorem memberTail_format (items : List MemberItem) (page seen : Nat) :
    Json.Format ⟨.arr (items.map (memberValue tbl.toJsonTable)) :: listStack,
        due (.arr (items.map (memberValue tbl.toJsonTable)) :: listStack)⟩
      (sentPieces tbl.toJsonTable (memberTail items.length (decide (page > 0 ∧ seen > page)))) []
      ⟨[.doc (some (memberListValue tbl.toJsonTable page seen items))], .after⟩ := by
  have hclose : Json.feed ⟨.arr (items.map (memberValue tbl.toJsonTable)) :: listStack,
      due (.arr (items.map (memberValue tbl.toJsonTable)) :: listStack)⟩ "  ],\n".toList =
      some ⟨[.obj [(Json.units "items".toList, .arr (items.map (memberValue tbl.toJsonTable)))]
        none, .doc none], .key false⟩ := by
    cases items <;> rfl
  rw [memberTail, memberListValue]
  by_cases hmore : page > 0 ∧ seen > page
  · rw [decide_eq_true hmore, if_pos rfl, if_pos hmore]
    simp only [sentPieces, Piece.sent, List.cons_append, List.nil_append]
    refine .fixed hclose (.fixed (p := "  \"returnedRows\": ".toList) rfl ?_)
    refine number_format rfl rfl (.fixed (p := "\n".toList) rfl ?_)
    refine .fixed (p := "  \"moreRows\": true,\n".toList) rfl ?_
    exact .fixed (p := "  \"JSONversion\": 1\n".toList) rfl
      (.fixed (p := "\x7d \n".toList) rfl (.done _))
  · rw [decide_eq_false hmore, if_neg Bool.false_ne_true, if_neg hmore]
    simp only [sentPieces, Piece.sent, List.cons_append, List.nil_append]
    refine .fixed hclose (.fixed (p := "  \"returnedRows\": ".toList) rfl ?_)
    refine number_format rfl rfl (.fixed (p := "\n".toList) rfl ?_)
    exact .fixed (p := "  \"JSONversion\": 1\n".toList) rfl
      (.fixed (p := "\x7d \n".toList) rfl (.done _))

theorem ok_writeMembers (first : Bool) (items : List MemberItem) :
    (writeMembers tbl.toJsonTable first items).all Piece.ok = true := by
  induction items generalizing first with
  | nil => rfl
  | cons item items ih =>
    obtain ⟨member, stats⟩ := item
    have hitem : (writeMember tbl.toJsonTable ⟨member, stats⟩).all Piece.ok = true := by
      cases stats <;> rfl
    rw [writeMembers, List.all_cons, List.all_append, hitem, List.all_cons, ih]
    cases first <;> rfl

theorem ok_memberTail (emitted : Nat) (more : Bool) :
    (memberTail emitted more).all Piece.ok = true := by
  cases more <;> rfl

end Read

/-- **Member lists.** Whatever bytes the blocks of a directory hold and whatever is asked for: the
scan ends, and the document is JSON that is read as the members it wrote, each under the bytes of its
name and with its statistics if it has them, with their number, and with `moreRows` if and only if a
member was found behind the page. A directory that could not be read to its end has no document. -/
theorem memberList_read (tbl : MemberTable) (req : ScanRequest) (blk : Block)
    (reads : List BlockRead) :
    memberListDocument tbl.toJsonTable req blk reads true = .ok none ∧
    ∃ seen items ps, memberScan req blk reads false = .ok ((seen : Nat), items) ∧
      memberListDocument tbl.toJsonTable req blk reads false = .ok (some ps) ∧
      Json.parse (tbl.sent (printed tbl.toJsonTable ps)) =
        some (memberListValue tbl.toJsonTable req.page.toNat seen items) := by
  obtain ⟨s, hscan⟩ := scanBlocks_ok req blk reads ⟨0, req.startKey.isSome, []⟩
  have hstart : (⟨0, req.startKey.isSome, []⟩ : ScanState).Written req := by
    refine ⟨?_, List.forall_mem_nil _⟩
    split <;> rfl
  obtain ⟨hcount, hprintable⟩ := scanBlocks_written hstart hscan
  have hok : memberScan req blk reads false = .ok ((s.seen : Int), s.items) := by
    rw [memberScan, hscan]
    rfl
  have hfailed : memberScan req blk reads true = .ok (-1, s.items) := by
    rw [memberScan, hscan]
    rfl
  have hemitted : (if decide (req.page.toNat > 0 ∧ s.seen > req.page.toNat) = true then
      req.page.toNat else s.seen) = s.items.length := by
    rw [hcount]
    simp only [decide_eq_true_eq]
    split <;> split <;> omega
  refine ⟨by rw [memberListDocument, hfailed]; rfl, s.seen, s.items, ?_, hok, ?_, ?_⟩
  · exact [.text "\x7b\n".toList, .text "  \"items\": [\n".toList] ++
      writeMembers tbl.toJsonTable true s.items ++
      memberTail s.items.length (decide (req.page.toNat > 0 ∧ s.seen > req.page.toNat))
  · rw [memberListDocument, hok, ← hemitted]
    rfl
  · rw [sent_printed tbl.toPrintTable, Json.parse]
    · have hformat : Json.Format Json.start (sentPieces tbl.toJsonTable
          ([.text "\x7b\n".toList, .text "  \"items\": [\n".toList] ++
            writeMembers tbl.toJsonTable true s.items ++
            memberTail s.items.length (decide (req.page.toNat > 0 ∧ s.seen > req.page.toNat)))) []
          ⟨[.doc (some (memberListValue tbl.toJsonTable req.page.toNat s.seen s.items))],
            .after⟩ := by
        simp only [sentPieces_append, sentPieces, Piece.sent, List.append_assoc]
        refine .fixed (p := "\x7b\n".toList) rfl (.fixed (p := "  \"items\": [\n".toList)
          (m := ⟨.arr [] :: listStack, due (.arr [] :: listStack)⟩) rfl ?_)
        exact members_format tbl hprintable (by trivial) (memberTail_format tbl _ _ _)
      exact (hformat.read_iff rfl).mpr (List.forall_mem_nil _)
    · rw [List.all_append, List.all_append, ok_writeMembers, ok_memberTail]
      rfl

/-- Code page 037. -/
def MemberTable.cp037 : MemberTable where
  toPrintTable := PrintTable.cp037
  nul := by decide +kernel
  slash := by decide +kernel

end Mvsmf
