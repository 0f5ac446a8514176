import Mvsmf.Ussapi.UssWrite

/-!
# The create of a file that exists

Absence is inferred from an open for reading that gives no handle, whatever the reason, and the open
for writing behind it truncates. A create is run on a file system, of which no more is said than what
the calls do to the objects in it.
-/

namespace Mvsmf

variable {σ : Type} {O : Type}

/-- Calls of a create that leave every object as it is. -/
def UfsCall.reads : UfsCall → Bool
  | .getUfs | .setCreatePerm _ | .lastRc | .diropen _ | .dirclose _ => true
  | .fopen _ .read | .fclose _ .read => true
  | _ => false

/-- What UFS promises; `view` is what a file system holds at a path. -/
structure UfsLaws (world : Prog.World UfsCall UfsCall.Ans σ) (view : σ → UssPath → Option O) :
    Prop where
  reads : ∀ {c : UfsCall} {s s' : σ} {a : c.Ans}, world c s = (a, s') → c.reads = true →
    view s' = view s
  refused : ∀ {path : UssPath} {s s' : σ}, world (.fopen path .write) s = (none, s') →
    view s' = view s
  opened : ∀ {path : UssPath} {s s' : σ} {error : Nat},
    world (.fopen path .write) s = (some error, s') → error = UFSD_RC_OK
  mkdir : ∀ {path : UssPath} {s s' : σ} {o : O} {rc : Int}, view s path = some o →
    world (.mkdir path) s = (rc, s') → rc ≠ 0 ∧ view s' = view s

/-- The object at the path is as it was, and no success is answered. -/
def Keeps (view : σ → UssPath → Option O) (path : UssPath) (o : O)
    (out : List UfsEvent × Answer × σ) : Prop :=
  view out.2.2 path = some o ∧ out.2.1.success = false

/-- UFS gives no handle for writing, and an open it refuses is recorded. -/
def Spared (path : UssPath) (t : List UfsEvent) : Prop :=
  (∀ error, ⟨.fopen path .write, some error⟩ ∉ t) ∧ ¬ Unrecorded t

variable {world : Prog.World UfsCall UfsCall.Ans σ} {view : σ → UssPath → Option O}

theorem ussCreateFile_keeps (laws : UfsLaws world view) {path : UssPath} (oldPerm : Nat) {s : σ}
    {o : O} (h : view s path = some o) :
    Keeps view path o ((ussCreateFile path oldPerm).exec world s) ↔
      Spared path ((ussCreateFile path oldPerm).exec world s).1 := by
  simp only [ussCreateFile, ufs]
  rcases hprobe : world (.fopen path .read) s with ⟨probe, s₁⟩
  rw [Prog.exec_ask hprobe]
  have h₁ := laws.reads hprobe rfl
  cases probe with
  | some found =>
    rcases hclose : world (.fclose path .read) s₁ with ⟨rc, s₂⟩
    rcases hperm : world (.setCreatePerm oldPerm) s₂ with ⟨perm, s₃⟩
    dsimp only
    rw [Prog.exec_ask hclose, Prog.exec_ask hperm, Prog.exec_ret]
    have hview : view s₃ = view s := by
      rw [laws.reads hperm rfl, laws.reads hclose rfl, h₁]
    refine iff_of_true ⟨by rw [hview, h], rfl⟩ ⟨?_, ?_⟩
    · simp
    · simp [Unrecorded]
  | none =>
    rcases hopen : world (.fopen path .write) s₁ with ⟨handle, s₂⟩
    dsimp only
    rw [Prog.exec_ask hopen]
    cases handle with
    | none =>
      rcases hrc : world .lastRc s₂ with ⟨urc, s₃⟩
      rcases hperm : world (.setCreatePerm oldPerm) s₃ with ⟨perm, s₄⟩
      dsimp only
      rw [Prog.exec_ask hrc, Prog.exec_ask hperm, Prog.exec_ret]
      have hview : view s₄ = view s := by
        rw [laws.reads hperm rfl, laws.reads hrc rfl, laws.refused hopen, h₁]
      have hanswer : (ufsAnswer urc).success = false ↔ urc ≠ UFSD_RC_OK := by
        rw [← Bool.not_eq_true, ufsAnswer_success]
      refine (and_iff_right (by rw [hview, h])).trans (hanswer.trans ?_)
      refine Iff.symm ((and_iff_right (by simp)).trans ?_)
      simp [Unrecorded, eq_comm (b := urc)]
    | some error =>
      obtain rfl := laws.opened hopen
      rcases hclose : world (.fclose path .write) s₂ with ⟨rc, s₃⟩
      rcases hperm : world (.setCreatePerm oldPerm) s₃ with ⟨perm, s₄⟩
      dsimp only
      rw [Prog.exec_ask hclose, Prog.exec_ask hperm, Prog.exec_ret]
      refine iff_of_false (fun hkeeps => ?_) fun hspared => ?_
      · have hsuccess : true = false := hkeeps.2
        cases hsuccess
      · exact hspared.1 UFSD_RC_OK (by simp)

theorem ussCreateDirectory_keeps (laws : UfsLaws world view) {path : UssPath} (oldPerm : Nat)
    {s : σ} {o : O} (h : view s path = some o) :
    Keeps view path o ((ussCreateDirectory path oldPerm).exec world s) := by
  simp only [ussCreateDirectory, ufs]
  rcases hprobe : world (.diropen path) s with ⟨opened, s₁⟩
  rw [Prog.exec_ask hprobe]
  have h₁ := laws.reads hprobe rfl
  split
  · rcases hclose : world (.dirclose path) s₁ with ⟨u, s₂⟩
    rcases hperm : world (.setCreatePerm oldPerm) s₂ with ⟨perm, s₃⟩
    rw [Prog.exec_ask hclose, Prog.exec_ask hperm, Prog.exec_ret]
    have hview : view s₃ = view s := by
      rw [laws.reads hperm rfl, laws.reads hclose rfl, h₁]
    exact ⟨by rw [hview, h], rfl⟩
  · rcases hmkdir : world (.mkdir path) s₁ with ⟨rc, s₂⟩
    rw [Prog.exec_ask hmkdir]
    obtain ⟨hrc, h₂⟩ := laws.mkdir (by rw [h₁, h]) hmkdir
    rcases hlast : world .lastRc s₂ with ⟨urc, s₃⟩
    rcases hperm : world (.setCreatePerm oldPerm) s₃ with ⟨perm, s₄⟩
    rw [if_pos hrc, Prog.exec_ask hlast, Prog.exec_ask hperm, Prog.exec_ret]
    have hview : view s₄ = view s := by
      rw [laws.reads hperm rfl, laws.reads hlast rfl, h₂, h₁]
    refine ⟨by rw [hview, h], ?_⟩
    rw [← Bool.not_eq_true, ufsAnswer_success]
    split
    · decide
    · assumption

attribute [local simp] ussCreateHandler in
/-- On an object that exists the create of a file keeps what it is for exactly if UFS gives it no
handle for writing and a code for the open it refuses. -/
theorem ussCreateHandler_keeps (laws : UfsLaws world view) {req : UssCreate} {s : σ} {o : O}
    (h : view s req.path = some o) :
    Keeps view req.path o ((ussCreateHandler req).exec world s) ↔
      (req.isFile = true → Spared req.path ((ussCreateHandler req).exec world s).1) := by
  rw [ussCreateHandler]
  cases req.refused with
  | some a => exact iff_of_true ⟨h, a.2⟩ fun _ => ⟨nofun, nofun⟩
  | none =>
    simp only [ufs]
    rcases hufs : world .getUfs s with ⟨answered, s₁⟩
    rw [Prog.exec_ask hufs]
    have h₁ := laws.reads hufs rfl
    cases answered with
    | false =>
      refine iff_of_true ⟨by rwa [← h₁] at h, rfl⟩ fun _ => ⟨?_, ?_⟩
      · simp [Prog.exec_ret]
      · simp [Prog.exec_ret, Unrecorded]
    | true =>
      rcases hperm : world (.setCreatePerm req.perm) s₁ with ⟨oldPerm, s₂⟩
      rw [if_pos rfl, Prog.exec_ask hperm]
      have h₂ : view s₂ req.path = some o := by rw [laws.reads hperm rfl, h₁, h]
      split
      · next hfile =>
        have hcreate := ussCreateFile_keeps laws oldPerm h₂
        have hspared (t : List UfsEvent) : Spared req.path
            (⟨.getUfs, true⟩ :: ⟨.setCreatePerm req.perm, oldPerm⟩ :: t) ↔ Spared req.path t := by
          simp [Spared, Unrecorded]
        rw [hspared, ← hcreate]
        exact ⟨fun hkeeps _ => hkeeps, fun hkeeps => hkeeps hfile⟩
      · next hfile =>
        exact iff_of_true (ussCreateDirectory_keeps laws oldPerm h₂)
          fun hisFile => absurd hisFile hfile

def oneFile : UssPath := [0x61, 0x81]

/-- A file system with one file, which cannot always be read; an open for writing makes it empty. -/
def oneFileWorld (readable : Bool) : Prog.World UfsCall UfsCall.Ans (List UInt8)
  | .getUfs, s => (true, s)
  | .etag _, s => (none, s)
  | .isDirectory _, s => (false, s)
  | .setCreatePerm perm, s => (perm, s)
  | .fopen path .read, s => (if path = oneFile ∧ readable then some UFSD_RC_OK else none, s)
  | .fopen path .write, s => if path = oneFile then (some UFSD_RC_OK, []) else (none, s)
  | .lastRc, s => ( UFSD_RC_IO, s)
  | .fwrite _ body, s => ((body.length, UFSD_RC_OK), s ++ body)
  | .fclose _ _, s => ((0 : Int), s)
  | .mkdir _, s => ((-1 : Int), s)
  | .remove _, s => ((-1 : Int), s)
  | .rmdir _, s => ((-1 : Int), s)
  | .diropen _, s => (false, s)
  | .dirread _, s => (none, s)
  | .dirclose _, s => ((), s)

def oneFileView (s : List UInt8) (path : UssPath) : Option (List UInt8) :=
  if path = oneFile then some s else none

theorem oneFileWorld_laws (readable : Bool) : UfsLaws (oneFileWorld readable) oneFileView where
  reads {c s s' a} h hc := by
    have hs : (oneFileWorld readable c s).2 = s := by
      cases c with
      | fopen path mode =>
        cases mode with
        | read => rfl
        | write => cases hc
      | fwrite path body => cases hc
      | _ => rfl
    rw [← hs, h]
  refused {path s s'} h := by
    rw [oneFileWorld] at h
    split at h
    · cases h
    · obtain ⟨-, rfl⟩ := Prod.mk.inj h
      rfl
  opened {path s s' error} h := by
    rw [oneFileWorld] at h
    split at h
    · obtain ⟨herror, -⟩ := Prod.mk.inj h
      exact (Option.some.inj herror).symm
    · cases h
  mkdir {path s s' o rc} hview h := by
    obtain ⟨rfl, rfl⟩ := Prod.mk.inj h
    exact ⟨by decide, rfl⟩

def createFile : UssCreate := ⟨oneFile, none, true, 0o755⟩

/-- The file that cannot be read is taken for one that is not there, and it is created. -/
theorem create_truncates_unreadable :
    oneFileView [0xC1] createFile.path = some [0xC1] ∧
      ((ussCreateHandler createFile).exec (oneFileWorld false) [0xC1]).2 =
        (Answer.plain 201, []) ∧
      ¬ Keeps oneFileView createFile.path [0xC1]
        ((ussCreateHandler createFile).exec (oneFileWorld false) [0xC1]) := by
  have hout : ((ussCreateHandler createFile).exec (oneFileWorld false) [0xC1]).2 =
      (Answer.plain 201, []) := rfl
  refine ⟨rfl, hout, fun hkeeps => ?_⟩
  have hsuccess := hkeeps.2
  rw [hout] at hsuccess
  exact absurd hsuccess (by decide)

theorem ussCreateHandler_keeps_readable :
    Keeps oneFileView createFile.path [0xC1]
      ((ussCreateHandler createFile).exec (oneFileWorld true) [0xC1]) := by
  have hcalls : ((ussCreateHandler createFile).exec (oneFileWorld true) [0xC1]).1 =
      [⟨.getUfs, true⟩, ⟨.setCreatePerm 0o755, (0o755 : Nat)⟩,
        ⟨.fopen oneFile .read, some UFSD_RC_OK⟩, ⟨.fclose oneFile .read, (0 : Int)⟩,
        ⟨.setCreatePerm 0o755, (0o755 : Nat)⟩] := rfl
  refine (ussCreateHandler_keeps (oneFileWorld_laws true) rfl).mpr fun _ => ?_
  rw [hcalls]
  exact ⟨by simp, by simp [Unrecorded]⟩

end Mvsmf
