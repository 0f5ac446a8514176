import Mvsmf.Common.JsonDocument

/-!
# The JSON of the file services

`ussapi.c` makes its JSON with `http_printf`: the names of files, paths and the like go between
quotes as they are.
-/

namespace Mvsmf

/-! ## Formats -/

/-- A part of what `http_printf` prints: the format's own text, a `%s` and a `%u`. -/
inductive Piece
  | text (cs : List Char)
  | s (bs : List UInt8)
  | u (n : Nat)

/-- The characters of the formats. -/
def isTextChar (c : Char) : Bool := isJsonChar c || c = ' ' || c = '\n' || c = '='

/-- A table that maps the characters of the formats too. -/
structure PrintTable extends JsonTable where
  mapsText : ∀ c, isTextChar c = true → (etoa.getD id) (host c) = UInt8.ofNat c.toNat

def Piece.print (tbl : JsonTable) : Piece → List UInt8
  | .text cs => tbl.lit cs
  | .s bs => bs
  | .u n => tbl.lit (Json.decimal n)

def printed (tbl : JsonTable) (ps : List Piece) : List UInt8 := ps.flatMap (Piece.print tbl)

/-! ## The listing and the status -/

/-- A broken-down time of `mgmtime64`. -/
structure Tm where
  year : Int
  mon : Int
  mday : Int
  hour : Int
  min : Int
  sec : Int

/-- `%0wd` -/
def zeroFilled (w : Nat) (n : Int) : List Char :=
  if n < 0 then '-' :: (List.replicate (w - 1 - (Nat.toDigits 10 n.natAbs).length) '0' ++
    Nat.toDigits 10 n.natAbs)
  else List.replicate (w - (Nat.toDigits 10 n.natAbs).length) '0' ++ Nat.toDigits 10 n.natAbs

def MTIME_BUF : Nat := 32

/-- The modification time in `mtime_buf`. -/
def mtimeText : Option Tm → List Char
  | some tm =>
    (zeroFilled 4 (tm.year + 1900) ++ '-' :: zeroFilled 2 (tm.mon + 1) ++
      '-' :: zeroFilled 2 tm.mday ++ 'T' :: zeroFilled 2 tm.hour ++ ':' :: zeroFilled 2 tm.min ++
      ':' :: zeroFilled 2 tm.sec ++ ['Z']).take (MTIME_BUF - 1)
  | none => "1970-01-01T00:00:00Z".toList

/-- What `ufs_dirread` returns. -/
structure UfsEntry where
  name : CStr
  attr : CStr
  filesize : UInt32
  owner : CStr
  group : CStr
  nlink : UInt16
  mtime : Option Tm
  inodeNumber : UInt32

section Handlers
variable (tbl : JsonTable)

/-- The lines of one item. -/
def itemPieces (name : CStr) (e : UfsEntry) : List Piece :=
  [.text "      \"name\": \"".toList, .s name.bytes, .text "\",\n".toList,
    .text "      \"mode\": \"".toList, .s e.attr.bytes, .text "\",\n".toList,
    .text "      \"size\": ".toList, .u e.filesize.toNat, .text ",\n".toList,
    .text "      \"user\": \"".toList, .s e.owner.bytes, .text "\",\n".toList,
    .text "      \"group\": \"".toList, .s e.group.bytes, .text "\",\n".toList,
    .text "      \"links\": ".toList, .u e.nlink.toNat, .text ",\n".toList,
    .text "      \"mtime\": \"".toList, .s (tbl.lit (mtimeText e.mtime)), .text "\",\n".toList,
    .text "      \"inode\": ".toList, .u e.inodeNumber.toNat, .text "\n".toList]

/-- What `uss_stat_file` sends behind its headers. -/
def ussStatFile (path : CStr) (e : UfsEntry) : List Piece :=
  [.text "\x7b\n".toList, .text "  \"items\": [\n".toList, .text "    \x7b\n".toList] ++
    itemPieces tbl path e ++
    [.text "    \x7d\n".toList, .text "  ],\n".toList, .text "  \"returnedRows\": 1,\n".toList,
      .text "  \"totalRows\": 1,\n".toList, .text "  \"JSONversion\": 1\n".toList,
      .text "\x7d\n".toList]

/-- The loop of the listing: whether no item was sent yet, how many were, how many entries there
were, and what was sent. -/
structure ListLoop where
  first : Bool
  emitted : Nat
  total : Nat
  out : List Piece

/-- `.` and `..` -/
def isDot (name : CStr) : Bool :=
  name.bytes = [tbl.host '.'] || name.bytes = [tbl.host '.', tbl.host '.']

/-- An item with what separates it from the one before. -/
def separatedItem (first : Bool) (e : UfsEntry) : List Piece :=
  .text (if first then "    \x7b\n".toList else "   ,\x7b\n".toList) ::
    (itemPieces tbl e.name e ++ [.text "    \x7d\n".toList])

def listStep (maxitems : Nat) (s : ListLoop) (e : UfsEntry) : ListLoop :=
  if isDot tbl e.name then s
  else if maxitems > 0 ∧ s.emitted ≥ maxitems then ⟨s.first, s.emitted, s.total + 1, s.out⟩
  else ⟨false, s.emitted + 1, s.total + 1, s.out ++ separatedItem tbl s.first e⟩

/-- What `ussListHandler` sends behind its headers. `maxitems` is 0 for no limit. -/
def ussListHandler (maxitems : Nat) (entries : List UfsEntry) : List Piece :=
  let s := entries.foldl (listStep tbl maxitems) ⟨true, 0, 0, []⟩
  let more := maxitems > 0 ∧ s.emitted < s.total
  [.text "\x7b\n".toList, .text "  \"items\": [\n".toList] ++ s.out ++
    [.text "  ],\n".toList,
      .text "  \"returnedRows\": ".toList, .u s.emitted, .text ",\n".toList,
      .text "  \"totalRows\": ".toList, .u s.total, .text ",\n".toList] ++
    (if more then [.text "  \"moreRows\": true,\n".toList] else []) ++
    [.text "  \"JSONversion\": 1\n".toList, .text "\x7d\n".toList]

def TAGLINE_SIZE : Nat := 300

/-- The line of an untagged file, in `tagline`. -/
def tagline (filepath : CStr) : List UInt8 :=
  (tbl.lit "- untagged    T=off ".toList ++ filepath.bytes).take (TAGLINE_SIZE - 1)

/-- What `uss_handle_chtag` sends for the action `list`. -/
def ussHandleChtag (filepath : CStr) : List Piece :=
  [.text "\x7b\"stdout\":[\"".toList, .s (tagline tbl filepath), .text "\"]\x7d\n".toList]

end Handlers

/-! ## What the responses are meant to say -/

section Meaning
variable (tbl : JsonTable)

def JsonTable.str (s : CStr) : Json.Value := .str (tbl.unitsOf s.bytes)

def itemValue (name : CStr) (e : UfsEntry) : Json.Value :=
  .obj [(Json.units "name".toList, tbl.str name), (Json.units "mode".toList, tbl.str e.attr),
    (Json.units "size".toList, .num e.filesize.toNat 0),
    (Json.units "user".toList, tbl.str e.owner), (Json.units "group".toList, tbl.str e.group),
    (Json.units "links".toList, .num e.nlink.toNat 0),
    (Json.units "mtime".toList, .str (Json.units (mtimeText e.mtime))),
    (Json.units "inode".toList, .num e.inodeNumber.toNat 0)]

/-- The entries that a listing counts. -/
def counted (entries : List UfsEntry) : List UfsEntry := entries.filter fun e => !isDot tbl e.name

/-- The entries that it shows. -/
def shown (maxitems : Nat) (entries : List UfsEntry) : List UfsEntry :=
  if maxitems = 0 then counted tbl entries else (counted tbl entries).take maxitems

/-- The response of a request. -/
inductive UssResponse
  | listing (maxitems : Nat) (entries : List UfsEntry)
  | stat (path : CStr) (e : UfsEntry)
  | chtag (filepath : CStr)

def UssResponse.pieces : UssResponse → List Piece
  | .listing maxitems entries => ussListHandler tbl maxitems entries
  | .stat path e => ussStatFile tbl path e
  | .chtag filepath => ussHandleChtag tbl filepath

def listValue (items : List Json.Value) (returned total : Nat) : Json.Value :=
  .obj ([(Json.units "items".toList, .arr items),
    (Json.units "returnedRows".toList, .num returned 0),
    (Json.units "totalRows".toList, .num total 0)] ++
    (if returned < total then [(Json.units "moreRows".toList, .bool true)] else []) ++
    [(Json.units "JSONversion".toList, .num 1 0)])

def UssResponse.value : UssResponse → Json.Value
  | .listing maxitems entries =>
    listValue ((shown tbl maxitems entries).map fun e => itemValue tbl e.name e)
      (shown tbl maxitems entries).length (counted tbl entries).length
  | .stat path e => listValue [itemValue tbl path e] 1 1
  | .chtag filepath =>
    .obj [(Json.units "stdout".toList, .arr [.str (Json.units "- untagged    T=off ".toList ++
      tbl.unitsOf filepath.bytes)])]

/-- The bytes need no escape. -/
def Verbatim (s : CStr) : Prop := ∀ c ∈ tbl.sent s.bytes, Json.Plain c

def ItemVerbatim (name : CStr) (e : UfsEntry) : Prop :=
  Verbatim tbl name ∧ Verbatim tbl e.attr ∧ Verbatim tbl e.owner ∧ Verbatim tbl e.group

/-- No name in the response needs an escape, and a path to be tagged fits its line. -/
def UssResponse.Clean : UssResponse → Prop
  | .listing maxitems entries => ∀ e ∈ shown tbl maxitems entries, ItemVerbatim tbl e.name e
  | .stat path e => ItemVerbatim tbl path e
  | .chtag filepath => Verbatim tbl filepath ∧ filepath.bytes.length + 20 < TAGLINE_SIZE

end Meaning

end Mvsmf
