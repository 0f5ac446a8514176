import Mvsmf.Common.CodePage
import Mvsmf.Dsapi.ModelSpace

/-!
# Volume serials

The serial in a path is one to six characters, folded to upper case; the one of a catalog entry is
six bytes, filled up with blanks. A request for a volume is served when they are the same.
-/

namespace Mvsmf

def VOLSER_LEN : Nat := 6

def VOLSER_CHARS : List Char := "ABCDEFGHIJKLMNOPQRSTUVWXYZ0123456789$#@".toList

/-- The three ranges of the EBCDIC letters. -/
def volserUpper (ch : Char) : Char :=
  if 'a' ≤ ch ∧ ch ≤ 'i' then Char.ofNat (ch.toNat - 'a'.toNat + 'A'.toNat)
  else if 'j' ≤ ch ∧ ch ≤ 'r' then Char.ofNat (ch.toNat - 'j'.toNat + 'J'.toNat)
  else if 's' ≤ ch ∧ ch ≤ 'z' then Char.ofNat (ch.toNat - 's'.toNat + 'S'.toNat)
  else ch

/-- `none` is the return of -1. -/
def volserNormalize (value : List Char) : Option (List Char) :=
  if value = [] ∨ value.length > VOLSER_LEN then none
  else
    let folded := value.map volserUpper
    if folded.all (VOLSER_CHARS.contains ·) then some folded else none

inductive VolserVerdict
  | onVolume
  | notCataloged
  | otherVolume
  | bad
  deriving DecidableEq, Repr

/-- The characters of the program as the bytes of the system. -/
def hostBytes (cs : List Char) : Volser := cs.map fun c => HttpCp.cp037.atoe (UInt8.ofNat c.toNat)

/-- A serial as a catalog entry has it. -/
def paddedVolser (want : List Char) : Volser :=
  hostBytes (want ++ List.replicate (VOLSER_LEN - want.length) ' ')

/-- `catVolser` is none where the name could not be located. -/
def volserVerdict (requested : List Char) (catVolser : Option Volser) : VolserVerdict :=
  match volserNormalize requested with
  | none => .bad
  | some want =>
    match catVolser with
    | none => .notCataloged
    | some vol => if paddedVolser want = vol.take VOLSER_LEN then .onVolume else .otherVolume

/-- The volume a request names is that of an entry. -/
def NamesVolume (requested : List Char) (vol : Volser) : Prop :=
  ∃ want, volserNormalize requested = some want ∧ paddedVolser want = vol.take VOLSER_LEN

theorem volserVerdict_onVolume {requested : List Char} {catVolser : Option Volser} :
    volserVerdict requested catVolser = .onVolume ↔
      ∃ vol, catVolser = some vol ∧ NamesVolume requested vol := by
  unfold volserVerdict NamesVolume
  cases hwant : volserNormalize requested with
  | none => simp
  | some want =>
    cases catVolser with
    | none => simp
    | some vol =>
      dsimp only
      split
      · next heq => exact iff_of_true rfl ⟨vol, rfl, want, rfl, heq⟩
      · next hne =>
        refine iff_of_false nofun ?_
        rintro ⟨_, ⟨⟩, _, ⟨⟩, heq⟩
        exact hne heq

end Mvsmf
