import Mvsmf.Router.Session

/-!
# Every run of a session

A handler calls the functions of the session in any order that its own handles allow, and the list of
data sets is made under a lock; an abend, wherever it comes, leads to `session_cleanup`.
-/

namespace Mvsmf

open Lease

variable {F J : Type} [DecidableEq F] [DecidableEq J]

/-- A call of a handler. An acquire of the console lock that is not granted is one that gives up. -/
inductive SessionOp (F J : Type)
  | registerFile (fp : Option F)
  | unregisterFile (fp : Option F)
  | fclose (fp : Option F)
  | registerJes (jes : Option J)
  | jesclose (jes : Option J)
  | consoleLockAcquire (granted : Bool)
  | consoleLockRelease

/-- The session behind a call, and what happens to the resources. -/
def SessionOp.run (s : SessionSlots F J) :
    SessionOp F J → SessionSlots F J × List (Event (SessionResource F J))
  | .registerFile none | .unregisterFile none | .fclose none => (s, [])
  | .registerFile (some fp) =>
    ((sessionRegisterFile s fp).2, [(.file fp, .taken ((sessionRegisterFile s fp).1 = 0))])
  | .unregisterFile (some fp) =>
    (sessionUnregisterFile s fp, if some fp ∈ s.openFiles then [(.file fp, .untracked)] else [])
  | .fclose (some fp) => (sessionUnregisterFile s fp, [(.file fp, .given false)])
  | .registerJes none | .jesclose none => (s, [])
  | .registerJes (some jes) =>
    ((sessionRegisterJes s jes).2, [(.jes jes, .taken ((sessionRegisterJes s jes).1 = 0))])
  | .jesclose (some jes) => (sessionJesclose s jes, [(.jes jes, .given false)])
  | .consoleLockAcquire false => (s, [])
  | .consoleLockAcquire true => ({ s with consoleLock := true }, [(.console, .taken true)])
  | .consoleLockRelease =>
    if s.consoleLock then ({ s with consoleLock := false }, [(.console, .given false)])
    else (s, [])

/-- What a handler does with its own handles: it registers one that it has just opened and closes one
that is open. The ENQ is not granted to the task that has it. -/
def SessionOp.Allowed (t : List (Event (SessionResource F J))) : SessionOp F J → Prop
  | .registerFile (some fp) => follow (.file fp) t = some .free
  | .fclose (some fp) => follow (.file fp) t ≠ some .free
  | .registerJes (some jes) => follow (.jes jes) t = some .free
  | .jesclose (some jes) => follow (.jes jes) t ≠ some .free
  | .consoleLockAcquire true => follow .console t = some .free
  | _ => True

/-- Where the request is: `listing` is inside `dslist_locked`. -/
inductive SessionPhase
  | running
  | listing
  | cleaned
  deriving DecidableEq

structure SessionState (F J : Type) where
  phase : SessionPhase
  session : SessionSlots F J
  trace : List (Event (SessionResource F J))

inductive SessionStep : SessionState F J → SessionState F J → Prop
  | op {s : SessionState F J} (op : SessionOp F J) : s.phase = .running → op.Allowed s.trace →
      SessionStep s ⟨.running, (op.run s.session).1, s.trace ++ (op.run s.session).2⟩
  | lockRes {s : SessionState F J} (granted : Bool) : s.phase = .running →
      (granted = true → follow .dslist s.trace = some .free) →
      SessionStep s ⟨.listing, { s.session with dslistLock := granted },
        s.trace ++ if granted then [(.dslist, .taken true)] else []⟩
  | unlockRes {s : SessionState F J} : s.phase = .listing →
      SessionStep s ⟨.running, { s.session with dslistLock := false },
        s.trace ++ if s.session.dslistLock then [(.dslist, .given false)] else []⟩
  | abend {s : SessionState F J} (abends : SessionResource F J → Bool) : s.phase ≠ .cleaned →
      SessionStep s ⟨.cleaned, (sessionCleanup abends s.session).1,
        s.trace ++ (sessionCleanup abends s.session).2⟩

variable (F J) in
def sessionSystem : System (SessionState F J) where
  init s := s = ⟨.running, initSession, []⟩
  step := SessionStep

/-- Every resource can be followed, and the tracked ones are those in the session. -/
def Followed (t : List (Event (SessionResource F J))) (s : SessionSlots F J) : Prop :=
  ∀ r, ∃ st, follow r t = some st ∧ (st = .tracked ↔ s.Tracks r)

structure Tracking (s : SessionState F J) : Prop where
  table : ∃ fs, s.session.Table fs
  follows : Followed s.trace s.session
  unlocked : s.phase = .running → s.session.dslistLock = false
  cleaned : s.phase = .cleaned → s.session = initSession

theorem Followed.event {t : List (Event (SessionResource F J))} {s s' : SessionSlots F J}
    {r : SessionResource F J} {happening : Happening} {st st' : Status} (h : Followed t s)
    (hst : follow r t = some st) (hnext : st.next happening = some st')
    (hr : st' = .tracked ↔ s'.Tracks r) (hothers : ∀ q, q ≠ r → (s'.Tracks q ↔ s.Tracks q)) :
    Followed (t ++ [(r, happening)]) s' := by
  intro q
  by_cases hq : q = r
  · subst hq
    exact ⟨st', (follow_snoc_same hst).trans hnext, hr⟩
  · obtain ⟨stq, hfollow, htracks⟩ := h q
    exact ⟨stq, by rwa [follow_snoc_other (Ne.symm hq)], htracks.trans (hothers q hq).symm⟩

theorem Followed.silent {t : List (Event (SessionResource F J))} {s s' : SessionSlots F J}
    (h : Followed t s) (hsame : ∀ q, s'.Tracks q ↔ s.Tracks q) : Followed (t ++ []) s' := by
  intro q
  obtain ⟨st, hfollow, htracks⟩ := h q
  exact ⟨st, by rwa [List.append_nil], htracks.trans (hsame q).symm⟩

/-- One call keeps the table and what is tracked, case by case. -/
theorem SessionOp.run_keeps {op : SessionOp F J} {s : SessionSlots F J}
    {t : List (Event (SessionResource F J))} {fs : List F} (htable : s.Table fs)
    (h : Followed t s) (hallowed : op.Allowed t) :
    (∃ fs, (op.run s).1.Table fs) ∧ Followed (t ++ (op.run s).2) (op.run s).1 ∧
      (op.run s).1.dslistLock = s.dslistLock := by
  cases op with
  | registerFile fp =>
    cases fp with
    | none => exact ⟨⟨fs, htable⟩, h.silent fun _ => Iff.rfl, rfl⟩
    | some fp =>
      obtain ⟨st, hst, htracked⟩ := h (.file fp)
      obtain rfl : st = .free := Option.some.inj (hst.symm.trans hallowed)
      have hnew : fp ∉ fs := fun hmem => by
        cases htracked.mpr (htable.mem_files.mpr hmem)
      rw [SessionOp.run]
      by_cases hrc : (sessionRegisterFile s fp).1 = 0
      · have htable' := htable.register hnew hrc
        have hothers := sessionRegisterFile_others s fp
        refine ⟨⟨_, htable'⟩, ?_, hothers.2.2⟩
        rw [decide_eq_true hrc]
        refine h.event hst rfl (iff_of_true rfl (htable'.mem_files.mpr (by simp))) ?_
        exact htable.tracks_others htable' (fun f hf => by simp [hf]) hothers
      · rw [sessionRegisterFile_full hrc, decide_eq_false hrc]
        refine ⟨⟨fs, htable⟩, h.event hst rfl (iff_of_false (by simp) ?_) fun _ _ => Iff.rfl, rfl⟩
        exact fun hmem => hnew (htable.mem_files.mp hmem)
  | unregisterFile fp =>
    cases fp with
    | none => exact ⟨⟨fs, htable⟩, h.silent fun _ => Iff.rfl, rfl⟩
    | some fp =>
      obtain ⟨htable', huntracked, hothers⟩ := htable.unregistered fp
      refine ⟨⟨_, htable'⟩, ?_, (unregisterFrom_others s fp 0).2.2⟩
      rw [SessionOp.run]
      dsimp only
      split
      · next hmem =>
        obtain ⟨st, hst, htracked⟩ := h (.file fp)
        obtain rfl := htracked.mpr hmem
        exact h.event hst rfl (iff_of_false (by simp) huntracked) hothers
      · next hmem =>
        refine h.silent fun q => ?_
        by_cases hq : q = .file fp
        · subst hq
          exact iff_of_false huntracked hmem
        · exact hothers q hq
  | fclose fp =>
    cases fp with
    | none => exact ⟨⟨fs, htable⟩, h.silent fun _ => Iff.rfl, rfl⟩
    | some fp =>
      obtain ⟨htable', huntracked, hothers⟩ := htable.unregistered fp
      refine ⟨⟨_, htable'⟩, ?_, (unregisterFrom_others s fp 0).2.2⟩
      obtain ⟨st, hst, -⟩ := h (.file fp)
      have hopen := next_given (fun hfree => hallowed (hfree ▸ hst)) false
      exact h.event hst hopen (iff_of_false (by simp) huntracked) hothers
  | registerJes jes =>
    cases jes with
    | none => exact ⟨⟨fs, htable⟩, h.silent fun _ => Iff.rfl, rfl⟩
    | some jes =>
      obtain ⟨st, hst, htracked⟩ := h (.jes jes)
      obtain rfl : st = .free := Option.some.inj (hst.symm.trans hallowed)
      rw [SessionOp.run, sessionRegisterJes]
      split
      · refine ⟨⟨fs, htable⟩, h.event hst rfl (iff_of_false (by simp) fun hmem => ?_)
          fun _ _ => Iff.rfl, rfl⟩
        cases htracked.mpr hmem
      · next hslot =>
        refine ⟨⟨fs, htable.1, htable.2, htable.3, htable.4⟩, ?_, rfl⟩
        refine h.event hst rfl (iff_of_true rfl rfl) ?_
        have hnone : s.openJes = none := by simpa using hslot
        rintro (_ | q | _ | _) hq
        · exact Iff.rfl
        · refine iff_of_false (fun hmem => ?_) fun hmem => ?_
          · cases hmem
            exact hq rfl
          · rw [SessionSlots.Tracks, hnone] at hmem
            cases hmem
        · exact Iff.rfl
        · exact Iff.rfl
  | jesclose jes =>
    cases jes with
    | none => exact ⟨⟨fs, htable⟩, h.silent fun _ => Iff.rfl, rfl⟩
    | some jes =>
      obtain ⟨st, hst, -⟩ := h (.jes jes)
      have hopen := next_given (fun hfree => hallowed (hfree ▸ hst)) false
      rw [SessionOp.run, sessionJesclose]
      split
      · next hslot =>
        refine ⟨⟨fs, htable.1, htable.2, htable.3, htable.4⟩, ?_, rfl⟩
        refine h.event hst hopen (iff_of_false (by simp) (by simp [SessionSlots.Tracks])) ?_
        rintro (_ | q | _ | _) hq
        · exact Iff.rfl
        · refine iff_of_false (by simp [SessionSlots.Tracks]) fun hmem => ?_
          cases Option.some.inj (hslot.symm.trans hmem)
          exact hq rfl
        · exact Iff.rfl
        · exact Iff.rfl
      · next hslot =>
        exact ⟨⟨fs, htable⟩, h.event hst hopen (iff_of_false (by simp) hslot) fun _ _ => Iff.rfl, rfl⟩
  | consoleLockAcquire granted =>
    cases granted with
    | false => exact ⟨⟨fs, htable⟩, h.silent fun _ => Iff.rfl, rfl⟩
    | true =>
      refine ⟨⟨fs, htable.1, htable.2, htable.3, htable.4⟩, ?_, rfl⟩
      refine h.event hallowed rfl (iff_of_true rfl rfl) ?_
      rintro (_ | _ | _ | _) hq
      · exact Iff.rfl
      · exact Iff.rfl
      · exact absurd rfl hq
      · exact Iff.rfl
  | consoleLockRelease =>
    rw [SessionOp.run]
    split
    · next hlock =>
      obtain ⟨st, hst, htracked⟩ := h .console
      obtain rfl := htracked.mpr hlock
      refine ⟨⟨fs, htable.1, htable.2, htable.3, htable.4⟩, ?_, rfl⟩
      refine h.event hst rfl (iff_of_false (by simp) (by simp [SessionSlots.Tracks])) ?_
      rintro (_ | _ | _ | _) hq
      · exact Iff.rfl
      · exact Iff.rfl
      · exact absurd rfl hq
      · exact Iff.rfl
    · exact ⟨⟨fs, htable⟩, h.silent fun _ => Iff.rfl, rfl⟩

theorem Tracking.start : Tracking (⟨.running, initSession, []⟩ : SessionState F J) where
  table := ⟨[], initSession_table⟩
  follows r := ⟨.free, rfl, iff_of_false nofun (initSession_tracks r)⟩
  unlocked _ := rfl
  cleaned := nofun

/-- Behind the recovery the trace has given back all that was tracked. -/
theorem Followed.cleanup {t : List (Event (SessionResource F J))} {s : SessionSlots F J} {fs : List F}
    (htable : s.Table fs) (h : Followed t s) (abends : SessionResource F J → Bool) :
    Followed (t ++ (sessionCleanup abends s).2) (sessionCleanup abends s).1 := by
  rw [htable.cleanup abends]
  dsimp only
  have htracked : ∀ r ∈ s.held fs, follow r t = some .tracked := by
    intro r hr
    obtain ⟨st, hst, hiff⟩ := h r
    rw [hst, hiff.mpr ((htable.mem_held r).mp hr)]
  intro r
  rw [follow_give htable.nodup_held htracked]
  have hempty := @initSession_tracks F J r
  obtain ⟨st, hst, hiff⟩ := h r
  split
  · exact ⟨.free, rfl, iff_of_false (by simp) hempty⟩
  · next hr =>
    exact ⟨st, hst, iff_of_false (fun htr => hr ((htable.mem_held r).mpr (hiff.mp htr))) hempty⟩

theorem Tracking.step {s s' : SessionState F J} (h : Tracking s) (hstep : SessionStep s s') :
    Tracking s' := by
  obtain ⟨fs, htable⟩ := h.table
  cases hstep with
  | op op hphase hallowed =>
    obtain ⟨htable', hfollows, hdslist⟩ := op.run_keeps htable h.follows hallowed
    exact ⟨htable', hfollows, fun _ => hdslist.trans (h.unlocked hphase), nofun⟩
  | lockRes granted hphase hfree =>
    refine ⟨⟨fs, htable.1, htable.2, htable.3, htable.4⟩, ?_, nofun, nofun⟩
    cases granted with
    | true =>
      exact h.follows.event (hfree rfl) rfl (iff_of_true rfl rfl) (s.session.tracks_setDslist true)
    | false =>
      have hsame : { s.session with dslistLock := false } = s.session := by
        rw [← h.unlocked hphase]
      rw [hsame]
      exact h.follows.silent fun _ => Iff.rfl
  | unlockRes hphase =>
    refine ⟨⟨fs, htable.1, htable.2, htable.3, htable.4⟩, ?_, fun _ => rfl, nofun⟩
    split
    · next hlock =>
      obtain ⟨st, hst, htracked⟩ := h.follows .dslist
      obtain rfl := htracked.mpr hlock
      exact h.follows.event hst rfl (iff_of_false nofun nofun)
        (s.session.tracks_setDslist false)
    · next hlock =>
      have hsame : { s.session with dslistLock := false } = s.session := by
        have hoff : s.session.dslistLock = false := by simpa using hlock
        rw [← hoff]
      rw [hsame]
      exact h.follows.silent fun _ => Iff.rfl
  | abend abends hphase =>
    refine ⟨?_, h.follows.cleanup htable abends, nofun, fun _ => ?_⟩
    · rw [htable.cleanup abends]
      exact ⟨[], initSession_table⟩
    · rw [htable.cleanup abends]

/-! ## What is not tracked -/

/-- The events of a call: it refuses only what there is no room for, and takes only files back that
it tracks. -/
theorem SessionOp.run_refuses {op : SessionOp F J} {s : SessionSlots F J} {fs : List F}
    (htable : s.Table fs) {r : SessionResource F J} {happening : Happening}
    (hmem : (r, happening) ∈ (op.run s).2) :
    (happening = .taken false → s.Full r) ∧
      (happening = .untracked → s.Tracks r ∧ ∃ fp, op = .unregisterFile (some fp) ∧ r = .file fp) := by
  cases op with
  | registerFile fp =>
    cases fp with
    | none => cases hmem
    | some fp =>
      cases List.mem_singleton.mp hmem
      refine ⟨fun hev => ?_, Happening.noConfusion⟩
      by_contra hroom
      simp [((htable.register_iff fp).2 hroom).1] at hev
  | unregisterFile fp =>
    cases fp with
    | none => cases hmem
    | some fp =>
      rw [SessionOp.run] at hmem
      dsimp only at hmem
      split at hmem
      · next htracked =>
        cases List.mem_singleton.mp hmem
        exact ⟨Happening.noConfusion, fun _ => ⟨htracked, fp, rfl, rfl⟩⟩
      · cases hmem
  | fclose fp =>
    cases fp with
    | none => cases hmem
    | some fp =>
      cases List.mem_singleton.mp hmem
      exact ⟨Happening.noConfusion, Happening.noConfusion⟩
  | registerJes jes =>
    cases jes with
    | none => cases hmem
    | some jes =>
      cases List.mem_singleton.mp hmem
      refine ⟨fun hev => ?_, Happening.noConfusion⟩
      by_contra hroom
      simp [((sessionRegisterJes_iff s jes).2 hroom).1] at hev
  | jesclose jes =>
    cases jes with
    | none => cases hmem
    | some jes =>
      cases List.mem_singleton.mp hmem
      exact ⟨Happening.noConfusion, Happening.noConfusion⟩
  | consoleLockAcquire granted =>
    cases granted with
    | false => cases hmem
    | true =>
      cases List.mem_singleton.mp hmem
      exact ⟨fun hev => Bool.noConfusion (Happening.taken.inj hev), Happening.noConfusion⟩
  | consoleLockRelease =>
    rw [SessionOp.run] at hmem
    split at hmem
    · cases List.mem_singleton.mp hmem
      exact ⟨Happening.noConfusion, Happening.noConfusion⟩
    · cases hmem

/-- A step adds to the trace, and what it does not track it had no room for or took back. -/
theorem SessionStep.refuses {s s' : SessionState F J} (hstep : SessionStep s s') {fs : List F}
    (htable : s.session.Table fs) :
    ∃ events, s'.trace = s.trace ++ events ∧
      (∀ r, (r, .taken false) ∈ events → s.session.Full r) ∧
      ∀ r, (r, .untracked) ∈ events → s.session.Tracks r ∧ ∃ fp, r = .file fp := by
  cases hstep with
  | op op _ _ =>
    refine ⟨_, rfl, fun r hmem => (op.run_refuses htable hmem).1 rfl, fun r hmem => ?_⟩
    obtain ⟨htracks, fp, -, hr⟩ := (op.run_refuses htable hmem).2 rfl
    exact ⟨htracks, fp, hr⟩
  | lockRes granted _ _ =>
    refine ⟨_, rfl, ?_, ?_⟩ <;> · cases granted <;> simp
  | unlockRes _ =>
    refine ⟨_, rfl, ?_, ?_⟩ <;> · split <;> simp
  | abend abends _ =>
    rw [htable.cleanup abends]
    refine ⟨_, rfl, ?_, ?_⟩ <;> simp

/-- **Session resources.** In every state a request comes to, the table is closed up and holds each
file once, and every resource has been given back as often as it was taken, but for one that is out:
tracked by the session, or refused or taken out of it by the last that happened to it. It is refused
only where there is no room, and is tracked behind its registration otherwise. An abend gives back
once what the session tracks, and touches nothing else; behind it the session is empty and nothing
that is out was tracked. -/
theorem session_tracking {s : SessionState F J} (h : (sessionSystem F J).Reach s) :
    (∃ fs, s.session.Table fs) ∧
      (∀ r, ∃ st, follow r s.trace = some st ∧
        taken r s.trace = given r s.trace + (if st = .free then 0 else 1) ∧
        (st = .tracked ↔ s.session.Tracks r) ∧
        (st = .loose → (happenings r s.trace).getLast? = some (.taken false) ∨
          (happenings r s.trace).getLast? = some .untracked)) ∧
      (∀ s', SessionStep s s' → ∃ events, s'.trace = s.trace ++ events ∧
        (∀ r, (r, .taken false) ∈ events → s.session.Full r) ∧
        ∀ r, (r, .untracked) ∈ events → s.session.Tracks r ∧ ∃ fp, r = .file fp) ∧
      (∀ fp, (s.session.Full (.file fp) → sessionRegisterFile s.session fp = (-1, s.session)) ∧
        (¬s.session.Full (.file fp) → (sessionRegisterFile s.session fp).1 = 0 ∧
          (sessionRegisterFile s.session fp).2.Tracks (.file fp))) ∧
      (∀ jes, (s.session.Full (.jes jes) → sessionRegisterJes s.session jes = (-1, s.session)) ∧
        (¬s.session.Full (.jes jes) → (sessionRegisterJes s.session jes).1 = 0 ∧
          (sessionRegisterJes s.session jes).2.Tracks (.jes jes))) ∧
      (∀ abends r,
        (s.session.Tracks r →
          follow r (s.trace ++ (sessionCleanup abends s.session).2) = some .free ∧
            happenings r (sessionCleanup abends s.session).2 = [.given (abends r)]) ∧
        (¬s.session.Tracks r → happenings r (sessionCleanup abends s.session).2 = [])) ∧
      (s.phase = .cleaned → s.session = initSession ∧ ∀ r, follow r s.trace ≠ some .tracked) := by
  have hinv : (sessionSystem F J).Invariant Tracking := ⟨fun h => h ▸ Tracking.start, Tracking.step⟩
  have htracking := hinv.reach h
  obtain ⟨fs, htable⟩ := htracking.table
  refine ⟨⟨fs, htable⟩, fun r => ?_, fun s' hstep => hstep.refuses htable,
    fun fp => htable.register_iff fp, fun jes => sessionRegisterJes_iff s.session jes,
    fun abends r => ?_, fun hphase => ⟨htracking.cleaned hphase, fun r => ?_⟩⟩
  · obtain ⟨st, hst, htracked⟩ := htracking.follows r
    refine ⟨st, hst, taken_eq hst, htracked, ?_⟩
    rintro rfl
    exact last_of_loose hst
  · rw [htable.cleanup abends]
    rw [happenings_give r htable.nodup_held, ← htable.mem_held]
    refine ⟨fun hheld => ⟨?_, if_pos hheld⟩, fun hnot => if_neg hnot⟩
    rw [follow_give htable.nodup_held, if_pos hheld]
    intro q hq
    obtain ⟨st, hst, hiff⟩ := htracking.follows q
    rw [hst, hiff.mpr ((htable.mem_held q).mp hq)]
  · obtain ⟨st, hst, hiff⟩ := htracking.follows r
    rw [htracking.cleaned hphase] at hiff
    rw [hst]
    rintro ⟨⟩
    exact initSession_tracks r (hiff.mp rfl)

/-- A file is registered, the list of data sets is being made, and the request abends, with another
abend in the close of the file. -/
def abendedListing : SessionState Nat Nat where
  phase := .cleaned
  session := initSession
  trace := [(.file 7, .taken true), (.dslist, .taken true), (.file 7, .given true),
    (.dslist, .given false)]

theorem abendedListing_reach : (sessionSystem Nat Nat).Reach abendedListing := by
  have hstart : (sessionSystem Nat Nat).Reach ⟨.running, initSession, []⟩ := .init rfl
  have hfile := hstart.step (.op (.registerFile (some 7)) rfl rfl)
  have hlock := hfile.step (.lockRes true rfl fun _ => rfl)
  exact hlock.step (.abend (fun r => decide (r = .file 7)) nofun)

theorem session_tracking_abended :
    abendedListing.session = initSession ∧
      follow (.file 7) abendedListing.trace ≠ some .tracked := by
  obtain ⟨-, -, -, -, -, -, hcleaned⟩ := session_tracking abendedListing_reach
  exact ⟨(hcleaned rfl).1, (hcleaned rfl).2 (.file 7)⟩

end Mvsmf
