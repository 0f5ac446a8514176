import Mvsmf.Lib.Leases
import Mvsmf.Lib.System
import Mathlib

/-!
# The resources of a session

A handler registers what it opens with its session, and closes it through the session; behind an
abend `session_cleanup` closes what is still registered, each under recovery of its own. The files are
in a table that is filled from the front and closed up when one is taken out.
-/

namespace Mvsmf

open Lease

def MAX_SESSION_FILES : Nat := 4

/-- The part of a session that tracks resources: files `F`, spool handles `J`, and the two locks. -/
@[ext] structure SessionSlots (F J : Type) where
  openFiles : List (Option F)
  openFileCount : Nat
  openJes : Option J
  consoleLock : Bool
  dslistLock : Bool

/-- What can be tracked. -/
inductive SessionResource (F J : Type)
  | file (fp : F)
  | jes (jes : J)
  | console
  | dslist
  deriving DecidableEq

variable {F J : Type}

def initSession : SessionSlots F J where
  openFiles := List.replicate MAX_SESSION_FILES none
  openFileCount := 0
  openJes := none
  consoleLock := false
  dslistLock := false

/-! ## The table of files -/

/-- The return code of `session_register_file`, and the table behind it. -/
def sessionRegisterFile (s : SessionSlots F J) (fp : F) : Int × SessionSlots F J :=
  if s.openFileCount ≥ MAX_SESSION_FILES then (-1, s)
  else (0, { s with
    openFiles := s.openFiles.set s.openFileCount (some fp)
    openFileCount := s.openFileCount + 1 })

/-- The entries behind `i` move down by one. -/
def shiftDown (count : Nat) (files : List (Option F)) (i : Nat) : List (Option F) :=
  if i < count then shiftDown count (files.set i files[i + 1]?.join) (i + 1) else files
termination_by count - i

/-- The table holds `fs`, from the front and once each, and nothing behind them. -/
structure SessionSlots.Table (s : SessionSlots F J) (fs : List F) : Prop where
  files : s.openFiles = fs.map some ++ List.replicate (MAX_SESSION_FILES - fs.length) none
  count : s.openFileCount = fs.length
  nodup : fs.Nodup
  bound : fs.length ≤ MAX_SESSION_FILES

theorem initSession_table : (initSession : SessionSlots F J).Table [] :=
  ⟨rfl, rfl, List.nodup_nil, Nat.zero_le _⟩

/-- It is registered with the session. -/
def SessionSlots.Tracks (s : SessionSlots F J) : SessionResource F J → Prop
  | .file fp => some fp ∈ s.openFiles
  | .jes jes => s.openJes = some jes
  | .console => s.consoleLock = true
  | .dslist => s.dslistLock = true

theorem SessionSlots.Table.mem_files {s : SessionSlots F J} {fs : List F} (h : s.Table fs) {fp : F} :
    some fp ∈ s.openFiles ↔ fp ∈ fs := by
  simp [h.files]

/-- The lock of the lists is not in the way of anything else. -/
theorem SessionSlots.tracks_setDslist (s : SessionSlots F J) (held : Bool) (q : SessionResource F J)
    (hq : q ≠ .dslist) : SessionSlots.Tracks { s with dslistLock := held } q ↔ s.Tracks q := by
  cases q with
  | dslist => exact absurd rfl hq
  | _ => exact Iff.rfl

theorem initSession_tracks (r : SessionResource F J) : ¬ (initSession : SessionSlots F J).Tracks r := by
  cases r <;> simp [SessionSlots.Tracks, initSession]

/-- A call on one file leaves the rest as it is. -/
theorem SessionSlots.Table.tracks_others {s s' : SessionSlots F J} {fs fs' : List F} {fp : F}
    (h : s.Table fs) (h' : s'.Table fs') (hmem : ∀ f, f ≠ fp → (f ∈ fs' ↔ f ∈ fs))
    (hothers : s'.openJes = s.openJes ∧ s'.consoleLock = s.consoleLock ∧
      s'.dslistLock = s.dslistLock) (q : SessionResource F J) (hq : q ≠ .file fp) :
    s'.Tracks q ↔ s.Tracks q := by
  obtain ⟨hjes, hconsole, hdslist⟩ := hothers
  cases q with
  | file f =>
    have hf : f ≠ fp := by
      rintro rfl
      exact hq rfl
    rw [SessionSlots.Tracks, SessionSlots.Tracks, h.mem_files, h'.mem_files, hmem f hf]
  | jes jes => rw [SessionSlots.Tracks, SessionSlots.Tracks, hjes]
  | console => rw [SessionSlots.Tracks, SessionSlots.Tracks, hconsole]
  | dslist => rw [SessionSlots.Tracks, SessionSlots.Tracks, hdslist]

theorem sessionRegisterFile_others (s : SessionSlots F J) (fp : F) :
    (sessionRegisterFile s fp).2.openJes = s.openJes ∧
      (sessionRegisterFile s fp).2.consoleLock = s.consoleLock ∧
      (sessionRegisterFile s fp).2.dslistLock = s.dslistLock := by
  rw [sessionRegisterFile]
  split <;> exact ⟨rfl, rfl, rfl⟩

theorem sessionRegisterFile_full {s : SessionSlots F J} {fp : F}
    (hrc : (sessionRegisterFile s fp).1 ≠ 0) : (sessionRegisterFile s fp).2 = s := by
  rw [sessionRegisterFile] at hrc ⊢
  split
  · rfl
  · next hroom => simp [hroom] at hrc

theorem SessionSlots.Table.register {s : SessionSlots F J} {fs : List F} (h : s.Table fs) {fp : F}
    (hnew : fp ∉ fs) (hrc : (sessionRegisterFile s fp).1 = 0) :
    (sessionRegisterFile s fp).2.Table (fs ++ [fp]) := by
  rw [sessionRegisterFile] at hrc ⊢
  split
  · next hfull => simp [hfull] at hrc
  · next hroom =>
    rw [h.count] at hroom
    have hlt : fs.length < MAX_SESSION_FILES := Nat.lt_of_not_le hroom
    have hrest : MAX_SESSION_FILES - fs.length = (MAX_SESSION_FILES - (fs ++ [fp]).length) + 1 := by
      rw [List.length_append, List.length_singleton]
      omega
    refine ⟨?_, ?_, ?_, ?_⟩
    · dsimp only
      rw [h.files, h.count, hrest, List.replicate_succ, List.set_append_right _ _ (by simp)]
      simp
    · simp [h.count]
    · exact List.nodup_append.mpr ⟨h.nodup, List.pairwise_singleton _ fp, by
        rintro a ha b hb rfl
        exact hnew (by rwa [List.mem_singleton.mp hb] at ha)⟩
    · rw [List.length_append, List.length_singleton]
      omega

/-- There is no room for it: the table has its files, or the slot its handle. -/
def SessionSlots.Full (s : SessionSlots F J) : SessionResource F J → Prop
  | .file _ => s.openFileCount = MAX_SESSION_FILES
  | .jes _ => s.openJes.isSome = true
  | .console | .dslist => False

/-- A file is tracked behind its registration, unless the table is full. -/
theorem SessionSlots.Table.register_iff {s : SessionSlots F J} {fs : List F} (h : s.Table fs)
    (fp : F) :
    (s.Full (.file fp) → sessionRegisterFile s fp = (-1, s)) ∧
      (¬s.Full (.file fp) → (sessionRegisterFile s fp).1 = 0 ∧
        (sessionRegisterFile s fp).2.Tracks (.file fp)) := by
  have hbound := h.bound
  rw [SessionSlots.Full, sessionRegisterFile, h.count]
  constructor
  · intro hfull
    rw [if_pos hfull.ge]
  · intro hroom
    rw [if_neg (by omega)]
    refine ⟨rfl, ?_⟩
    dsimp only [SessionSlots.Tracks]
    refine List.mem_set ?_ _
    rw [h.files, List.length_append, List.length_map, List.length_replicate]
    omega

/-- The entry in front of `bs` is closed over, and the place behind them cleared. -/
theorem shiftDown_set {as bs rest : List (Option F)} {x y : Option F} :
    (shiftDown (as.length + bs.length) (as ++ x :: bs ++ rest) as.length).set
      (as.length + bs.length) y = as ++ bs ++ y :: rest := by
  induction bs generalizing as x with
  | nil =>
    rw [shiftDown, if_neg (by simp)]
    simp
  | cons b bs ih =>
    rw [shiftDown, if_pos (by simp)]
    have hnext : (as ++ x :: b :: bs ++ rest)[as.length + 1]?.join = b := by
      simp
    have hset : (as ++ x :: b :: bs ++ rest).set as.length b = (as ++ [b]) ++ b :: bs ++ rest := by
      simp
    have hlength : as.length + (b :: bs).length = (as ++ [b]).length + bs.length := by
      simp
      omega
    have hstart : as.length + 1 = (as ++ [b]).length := by simp
    rw [hnext, hset, hlength, hstart, ih]
    simp

/-! ## Taking a file out -/

section Unregister

variable [DecidableEq F]

/-- The search of `session_unregister_file` from entry `i` on. -/
def unregisterFrom (s : SessionSlots F J) (fp : F) (i : Nat) : SessionSlots F J :=
  if i < s.openFileCount then
    if s.openFiles[i]? = some (some fp) then
      let count := s.openFileCount - 1
      { s with
        openFiles := (shiftDown count s.openFiles i).set count none
        openFileCount := count }
    else unregisterFrom s fp (i + 1)
  else s
termination_by s.openFileCount - i

def sessionUnregisterFile (s : SessionSlots F J) (fp : F) : SessionSlots F J := unregisterFrom s fp 0

/-- The search comes to the first entry with the file. -/
theorem unregisterFrom_found {s : SessionSlots F J} {fp : F} {n i : Nat} (hi : i ≤ n)
    (hn : n < s.openFileCount) (hfound : s.openFiles[n]? = some (some fp))
    (hbefore : ∀ k < n, s.openFiles[k]? ≠ some (some fp)) :
    unregisterFrom s fp i = { s with
      openFiles := (shiftDown (s.openFileCount - 1) s.openFiles n).set (s.openFileCount - 1) none
      openFileCount := s.openFileCount - 1 } := by
  induction hd : n - i generalizing i with
  | zero =>
    obtain rfl : i = n := by omega
    rw [unregisterFrom, if_pos hn, if_pos hfound]
  | succ d ih =>
    rw [unregisterFrom, if_pos (by omega), if_neg (hbefore i (by omega))]
    exact ih (by omega) (by omega)

theorem unregisterFrom_missing {s : SessionSlots F J} {fp : F} {i : Nat}
    (h : ∀ k < s.openFileCount, s.openFiles[k]? ≠ some (some fp)) :
    unregisterFrom s fp i = s := by
  induction hd : s.openFileCount - i generalizing i with
  | zero => rw [unregisterFrom, if_neg (by omega)]
  | succ d ih =>
    rw [unregisterFrom, if_pos (by omega), if_neg (h i (by omega))]
    exact ih (by omega)

theorem SessionSlots.Table.unregister {s : SessionSlots F J} {fs : List F} (h : s.Table fs) (fp : F) :
    (sessionUnregisterFile s fp).Table (fs.erase fp) := by
  by_cases hfp : fp ∈ fs
  · obtain ⟨as, bs, rfl⟩ := List.append_of_mem hfp
    have has : fp ∉ as := fun ha =>
      (List.nodup_append.mp h.nodup).2.2 fp ha fp List.mem_cons_self rfl
    let rest : List (Option F) :=
      List.replicate (MAX_SESSION_FILES - (as ++ fp :: bs).length) none
    have hfiles : s.openFiles = as.map some ++ some fp :: bs.map some ++ rest := by
      simp [h.files, rest]
    have hcount : s.openFileCount - 1 = (as.map some).length + (bs.map some).length := by
      rw [h.count, List.length_append, List.length_cons, List.length_map, List.length_map]
      omega
    have hfound : s.openFiles[as.length]? = some (some fp) := by simp [hfiles]
    have hbefore : ∀ k < as.length, s.openFiles[k]? ≠ some (some fp) := by
      intro k hk hmem
      rw [hfiles, List.append_assoc, List.getElem?_append_left (by simpa using hk),
        List.getElem?_map] at hmem
      obtain ⟨f, hf, heq⟩ := Option.map_eq_some_iff.mp hmem
      cases heq
      exact has (List.mem_of_getElem? hf)
    have hroom : as.length < s.openFileCount := by
      rw [h.count, List.length_append, List.length_cons]
      omega
    have hshift : (shiftDown (s.openFileCount - 1) s.openFiles as.length).set
        (s.openFileCount - 1) none = as.map some ++ bs.map some ++ none :: rest := by
      rw [hfiles, hcount]
      simpa only [List.length_map] using
        @shiftDown_set F (as.map some) (bs.map some) rest (some fp) none
    rw [sessionUnregisterFile, unregisterFrom_found (Nat.zero_le _) hroom hfound hbefore,
      List.erase_append_right _ has, List.erase_cons_head]
    have hnodup : (as ++ bs).Nodup :=
      h.nodup.sublist (List.Sublist.append_left (List.sublist_cons_self fp bs) as)
    have hbound := h.bound
    rw [List.length_append, List.length_cons] at hbound
    refine ⟨?_, ?_, hnodup, ?_⟩
    · dsimp only
      rw [hshift]
      have hrest : MAX_SESSION_FILES - (as ++ bs).length =
          MAX_SESSION_FILES - (as ++ fp :: bs).length + 1 := by
        rw [List.length_append, List.length_append, List.length_cons]
        omega
      rw [hrest, List.replicate_succ, List.map_append]
    · dsimp only
      rw [hcount, List.length_map, List.length_map, List.length_append]
    · rw [List.length_append]
      omega
  · rw [List.erase_of_not_mem hfp, sessionUnregisterFile, unregisterFrom_missing]
    · exact h
    · intro k hk hmem
      rw [h.files, List.getElem?_append_left (by rwa [List.length_map, ← h.count]),
        List.getElem?_map] at hmem
      obtain ⟨f, hf, heq⟩ := Option.map_eq_some_iff.mp hmem
      cases heq
      exact hfp (List.mem_of_getElem? hf)

theorem unregisterFrom_others (s : SessionSlots F J) (fp : F) (i : Nat) :
    (unregisterFrom s fp i).openJes = s.openJes ∧
      (unregisterFrom s fp i).consoleLock = s.consoleLock ∧
      (unregisterFrom s fp i).dslistLock = s.dslistLock := by
  fun_induction unregisterFrom s fp i with
  | case1 => exact ⟨rfl, rfl, rfl⟩
  | case2 i hi hne ih => exact ih
  | case3 => exact ⟨rfl, rfl, rfl⟩

/-- Behind an unregister of a file that the trace has out. -/
theorem SessionSlots.Table.unregistered {s : SessionSlots F J} {fs : List F} (h : s.Table fs) (fp : F) :
    (sessionUnregisterFile s fp).Table (fs.erase fp) ∧
      ¬ (sessionUnregisterFile s fp).Tracks (.file fp) ∧
      ∀ q, q ≠ .file fp → ((sessionUnregisterFile s fp).Tracks q ↔ s.Tracks q) := by
  have htable := h.unregister fp
  refine ⟨htable, ?_, ?_⟩
  · rw [SessionSlots.Tracks, htable.mem_files]
    exact h.nodup.not_mem_erase
  · exact h.tracks_others htable (fun f hf => List.mem_erase_of_ne hf)
      (unregisterFrom_others s fp 0)

end Unregister

/-! ## Recovery -/

/-- The loop over the table from entry `i` on, `n` entries: the files it closes. -/
def cleanupFiles : Nat → Nat → List (Option F) → List (Option F) × List F
  | 0, _, files => (files, [])
  | n + 1, i, files =>
    match files[i]? with
    | some (some fp) =>
      let (files, closed) := cleanupFiles n (i + 1) (files.set i none)
      (files, fp :: closed)
    | _ => cleanupFiles n (i + 1) files

/-- The session behind `session_cleanup`, and what it closes and releases, in order. `abends` is which
of these abend. -/
def sessionCleanup (abends : SessionResource F J → Bool) (s : SessionSlots F J) :
    SessionSlots F J × List (Event (SessionResource F J)) :=
  let (files, closed) := cleanupFiles s.openFileCount 0 s.openFiles
  let resources := closed.map .file ++ (s.openJes.map SessionResource.jes).toList ++
    (if s.consoleLock then [.console] else []) ++ (if s.dslistLock then [.dslist] else [])
  ({ openFiles := files, openFileCount := 0, openJes := none, consoleLock := false,
     dslistLock := false },
    resources.map fun r => (r, .given (abends r)))

theorem cleanupFiles_spec {fs : List F} {rest : List (Option F)} {i : Nat} :
    cleanupFiles fs.length i (List.replicate i none ++ fs.map some ++ rest) =
      (List.replicate (i + fs.length) none ++ rest, fs) := by
  induction fs generalizing i with
  | nil => simp [cleanupFiles]
  | cons fp fs ih =>
    have hentry : (List.replicate i none ++ (fp :: fs).map some ++ rest)[i]? = some (some fp) := by
      simp
    have hset : (List.replicate i none ++ (fp :: fs).map some ++ rest).set i none =
        List.replicate (i + 1) none ++ fs.map some ++ rest := by
      simp [List.replicate_succ']
    rw [List.length_cons, cleanupFiles, hentry]
    dsimp only
    rw [hset, ih, Nat.add_right_comm, Nat.add_assoc]

/-- What a session with these files holds, in the order of `session_cleanup`. -/
def SessionSlots.held (s : SessionSlots F J) (fs : List F) : List (SessionResource F J) :=
  fs.map .file ++ (s.openJes.map SessionResource.jes).toList ++
    (if s.consoleLock then [.console] else []) ++ (if s.dslistLock then [.dslist] else [])

theorem SessionSlots.Table.mem_held {s : SessionSlots F J} {fs : List F} (h : s.Table fs)
    (r : SessionResource F J) : r ∈ s.held fs ↔ s.Tracks r := by
  cases r with
  | file fp => simp [SessionSlots.held, SessionSlots.Tracks, h.mem_files]
  | jes jes => simp [SessionSlots.held, SessionSlots.Tracks]
  | console => simp [SessionSlots.held, SessionSlots.Tracks]
  | dslist => simp [SessionSlots.held, SessionSlots.Tracks]

theorem SessionSlots.Table.nodup_held {s : SessionSlots F J} {fs : List F} (h : s.Table fs) :
    (s.held fs).Nodup := by
  have hfiles : (fs.map (SessionResource.file (J := J))).Nodup :=
    List.Nodup.map (fun _ _ heq => SessionResource.file.inj heq) h.nodup
  rw [SessionSlots.held]
  cases s.openJes <;> cases s.consoleLock <;> cases s.dslistLock <;>
    simp [List.nodup_append, hfiles]

/-- `session_cleanup` leaves the session as it was at first, and closes what it holds. -/
theorem SessionSlots.Table.cleanup {s : SessionSlots F J} {fs : List F} (h : s.Table fs)
    (abends : SessionResource F J → Bool) :
    sessionCleanup abends s =
      (initSession, (s.held fs).map fun r => (r, .given (abends r))) := by
  have hfiles := @cleanupFiles_spec F fs
    (List.replicate (MAX_SESSION_FILES - fs.length) none) 0
  have hempty : List.replicate (0 + fs.length) (none : Option F) ++
      List.replicate (MAX_SESSION_FILES - fs.length) none =
        List.replicate MAX_SESSION_FILES none := by
    rw [List.replicate_append_replicate, Nat.zero_add, Nat.add_sub_cancel' h.bound]
  rw [List.replicate_zero, List.nil_append, hempty, ← h.files] at hfiles
  rw [sessionCleanup, h.count, hfiles]
  rfl

/-! ## The spool handle -/

def sessionRegisterJes (s : SessionSlots F J) (jes : J) : Int × SessionSlots F J :=
  if s.openJes.isSome then (-1, s) else (0, { s with openJes := some jes })

theorem sessionRegisterJes_iff (s : SessionSlots F J) (jes : J) :
    (s.Full (.jes jes) → sessionRegisterJes s jes = (-1, s)) ∧
      (¬s.Full (.jes jes) → (sessionRegisterJes s jes).1 = 0 ∧
        (sessionRegisterJes s jes).2.Tracks (.jes jes)) := by
  rw [SessionSlots.Full, sessionRegisterJes]
  exact ⟨fun hfull => if_pos hfull, fun hroom => by rw [if_neg hroom]; exact ⟨rfl, rfl⟩⟩

section Jes

variable [DecidableEq J]

/-- The slot behind `session_jesclose`, which closes in any case. -/
def sessionJesclose (s : SessionSlots F J) (jes : J) : SessionSlots F J :=
  if s.openJes = some jes then { s with openJes := none } else s

end Jes

end Mvsmf
