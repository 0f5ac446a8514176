import Mvsmf.Dsapi.Names

/-!
# ISPF statistics

The statistics ISPF keeps in the user data of a directory entry. The layout is not trusted: every
packed field is checked, and an entry that does not pass has none.
-/

namespace Mvsmf

def ENTRY_FIXED : Nat := 12

def ISPF_STATS_LEN : Nat := 30

/-- A packed byte: two decimal digits. -/
def bcd2 (b : UInt8) : Option Nat :=
  let hi := b.toNat / 16
  let lo := b.toNat % 16
  if hi > 9 ∨ lo > 9 then none else some (hi * 10 + lo)

def statDigit (v : Nat) : Char := Char.ofNat ('0'.toNat + v % 10)

def put2 (v : Nat) : List Char := [statDigit (v / 10), statDigit v]

/-- The month, from `0` on, and the day of a day of the year. -/
def monthOf (leap : Nat) : Nat → List Nat → Nat → Nat × Nat
  | month, [], doy => (month, doy)
  | month, days :: rest, doy =>
    let len := days + if month = 1 then leap else 0
    if doy ≤ len then (month, doy) else monthOf leap (month + 1) rest (doy - len)

def MDAYS : List Nat := [31, 28, 31, 30, 31, 30, 31, 31, 30, 31, 30, 31]

/-- A century byte and a packed `yyddd` with its sign, as `yyyy/mm/dd`. -/
def formatDate (cent d0 d1 d2 : UInt8) : Option (List Char) :=
  if cent > 1 then none
  else do
    let yy ← bcd2 d0
    let dd ← bcd2 d1
    let d3 := d2.toNat / 16
    let sign := d2.toNat % 16
    if d3 > 9 ∨ sign < 0x0A then none
    else
      let year := 1900 + 100 * cent.toNat + yy
      let doy := dd * 10 + d3
      let leap := if (year % 4 = 0 ∧ year % 100 ≠ 0) ∨ year % 400 = 0 then 1 else 0
      if doy < 1 ∨ doy > 365 + leap then none
      else
        let (month, day) := monthOf leap 0 MDAYS doy
        some (put2 (year / 100) ++ put2 year ++ ['/'] ++ put2 (month + 1) ++ ['/'] ++ put2 day)

structure IspfStats where
  vers : Nat
  mod : Nat
  cnorc : Nat
  inorc : Nat
  mnorc : Nat
  c4date : List Char
  m4date : List Char
  mtime : List Char
  msec : List Char
  user : List UInt8
  sclm : Bool
  deriving DecidableEq, Repr

def halfwordAt (bytes : List UInt8) (i : Nat) : Nat :=
  (bytes.getD i 0).toNat * 256 + (bytes.getD (i + 1) 0).toNat

/-- The statistics of an entry. An entry that is shorter than the statistics is not looked at. -/
def ispfStatsParse (entry : List UInt8) : Option IspfStats :=
  if entry.length < ENTRY_FIXED + ISPF_STATS_LEN then none
  else if (entry.getD 11 0) &&& 0x60 ≠ 0 then none
  else if ((entry.getD 11 0) &&& 0x1F).toNat * 2 ≠ ISPF_STATS_LEN then none
  else
    let u := entry.drop ENTRY_FIXED
    let at' := fun i => u.getD i 0
    if at' 0 > 99 ∨ at' 1 > 99 then none
    else do
      let sec ← bcd2 (at' 3)
      let hh ← bcd2 (at' 12)
      let mm ← bcd2 (at' 13)
      if sec > 59 ∨ hh > 23 ∨ mm > 59 then none
      else
        let c4date ← formatDate (at' 4) (at' 5) (at' 6) (at' 7)
        let m4date ← formatDate (at' 8) (at' 9) (at' 10) (at' 11)
        some
          { vers := (at' 0).toNat
            mod := (at' 1).toNat
            cnorc := halfwordAt u 14
            inorc := halfwordAt u 16
            mnorc := halfwordAt u 18
            c4date := c4date
            m4date := m4date
            mtime := put2 hh ++ [':'] ++ put2 mm
            msec := put2 sec
            user := ((u.drop 20).take 8).rdropWhile fun b => b == 0x40 || b == 0
            sclm := (at' 2) &&& 0x80 ≠ 0 }

/-- The value asks for `base`. -/
def ispfWantsBase (value : Option (List Char)) : Bool :=
  match value with
  | none => false
  | some value =>
    (value.take 4).map Char.toUpper == ['B', 'A', 'S', 'E'] &&
      match value[4]? with
      | none => true
      | some c => c == ',' || c == ' '

end Mvsmf
