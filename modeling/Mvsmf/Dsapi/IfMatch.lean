import Mvsmf.Common.Etag
import Mvsmf.Dsapi.Get
import Mvsmf.Lib.CheckWrite

/-!
# Two writes under If-Match

A PUT of a data set, a member or a file stamps what is stored, compares its `If-Match` with the
stamp, and opens for output, writes and closes behind that. Each handler does this on its own
worker, without a lock on what it writes.
-/

namespace Mvsmf

open CheckWrite

/-! ## Stamps of what is stored -/

/-- The value `dataset_etag` fills in from the blocks it hashes. -/
def recordsEtag (blocks : List (List UInt8)) : List Char :=
  etagFinal (blocks.foldl etagUpdate etagInit)

/-- `uss_etag` over the pieces a file is read in. -/
def ussEtag (reads : List (List UInt8)) : List Char :=
  etagFinal (reads.foldl etagUpdateRaw etagInit)

/-- What is stored under a name: a data set or a member with the record limit its handler passes, or
a file as the pieces a read returns. -/
inductive Stored
  | dataset (fp : DsFile) (maxRecords : Int)
  | file (reads : List (List UInt8))

/-- The stamp, if what is stored can be read. -/
def Stored.etag : Stored → Option (List Char)
  | .dataset fp maxRecords => (datasetEtag (fun _ => true) (some fp) maxRecords).map recordsEtag
  | .file reads => some (ussEtag reads)

theorem Stored.isEtag {s : Stored} {e : List Char} (h : s.etag = some e) : IsEtag e := by
  cases s with
  | dataset fp maxRecords =>
    obtain ⟨blocks, -, rfl⟩ := Option.map_eq_some_iff.mp h
    exact etagFinal_isEtag _
  | file reads =>
    obtain rfl := Option.some.inj h
    exact etagFinal_isEtag _

theorem etagUpdateRaw_append (ctx : EtagCtx) (xs ys : List UInt8) :
    etagUpdateRaw (etagUpdateRaw ctx xs) ys = etagUpdateRaw ctx (xs ++ ys) := by
  simp [etagUpdateRaw, UInt32.add_assoc]

/-- The stamp of a file does not depend on how the reads cut it. -/
theorem ussEtag_flatten (reads : List (List UInt8)) :
    ussEtag reads = etagFinal (etagUpdateRaw etagInit reads.flatten) := by
  have hfold : ∀ (ctx : EtagCtx), reads.foldl etagUpdateRaw ctx = etagUpdateRaw ctx reads.flatten := by
    induction reads with
    | nil => intro ctx; simp [etagUpdateRaw]
    | cons r reads ih =>
      intro ctx
      rw [List.foldl_cons, ih, etagUpdateRaw_append, List.flatten_cons]
  rw [ussEtag, hfold]

/-! ## The check -/

def ERR_MSG_ETAG_MISMATCH : String := "The resource was modified since the supplied ETag was created"

def REASON_ETAG_MISMATCH : Int := 10

/-- `check_if_match`: the 412 it sends, or none if the write may proceed. `current` is what
`dataset_etag` computed, if it could. -/
def checkIfMatch (ifMatch current : Option (List Char)) : Option Answer :=
  let mismatch : Answer := ⟨Answer.HTTP_STATUS_PRECONDITION_FAILED, Answer.CATEGORY_SERVICE,
    Answer.RC_ERROR, REASON_ETAG_MISMATCH, ERR_MSG_ETAG_MISMATCH, []⟩
  match ifMatch, current with
  | none, _ => none
  | some _, none => some mismatch
  | some header, some etag => if etagMatches header etag then none else some mismatch

/-- `uss_check_if_match`; the open answers for a directory. -/
def ussCheckIfMatch (ifMatch current : Option (List Char)) (isDirectory : Bool) : Option Answer :=
  let mismatch : Answer := ⟨412, 4, 8, 1, ERR_MSG_ETAG_MISMATCH, []⟩
  match ifMatch, current with
  | none, _ => none
  | some _, none => if isDirectory then none else some mismatch
  | some header, some etag => if etagMatches header etag then none else some mismatch

/-- A PUT that has passed the checks in front of this one: its header, and what is stored when it
has closed. -/
structure IfMatchPut where
  ifMatch : Option (List Char)
  stored : Stored

/-- The check of the request's handler. -/
def IfMatchPut.check (r : IfMatchPut) (current : Option (List Char)) : Option Answer :=
  match r.stored with
  | .dataset _ _ => checkIfMatch r.ifMatch current
  | .file _ => ussCheckIfMatch r.ifMatch current false

/-- The answer of a request that has come to its end: 204, or that of the check. -/
def IfMatchPut.answer (r : IfMatchPut) : Phase (Option (List Char)) → Option Answer
  | .stored => some (Answer.plain 204)
  | .refused => r.check none
  | _ => none

/-- A mismatch is answered as an unreadable resource is. -/
theorem IfMatchPut.check_mismatch {r : IfMatchPut} {current : Option (List Char)}
    (h : r.check current ≠ none) : r.check current = r.check none := by
  obtain ⟨ifMatch, stored⟩ := r
  cases ifMatch with
  | none => cases stored <;> exact absurd rfl h
  | some header =>
    cases current with
    | none => rfl
    | some etag =>
      cases stored with
      | dataset =>
        simp only [check, checkIfMatch] at h ⊢
        split at h
        next => exact absurd rfl h
        next hm => rw [if_neg hm]
      | file =>
        simp only [check, ussCheckIfMatch] at h ⊢
        split at h
        next => exact absurd rfl h
        next hm =>
          rw [if_neg hm]
          rfl

/-! ## The race -/

def putRace {ι : Type} (reqs : ι → IfMatchPut) : Race ι Stored (Option (List Char)) where
  stamp := Stored.etag
  accepts i etag := ((reqs i).check etag).isNone
  stored i := (reqs i).stored

/-- No update is lost: where one request is answered with success, every other has written nothing
and can be answered 412 only. -/
def OneUpdate {ι : Type} (reqs : ι → IfMatchPut) (x : State ι Stored (Option (List Char))) : Prop :=
  ∀ i j, i ≠ j → ∀ a, (reqs i).answer (x.phase i) = some a → a.success = true →
    x.written j = false ∧
    ∀ b, (reqs j).answer (x.phase j) = some b → b.status = Answer.HTTP_STATUS_PRECONDITION_FAILED

theorem IfMatchPut.check_none_status {r : IfMatchPut} {a : Answer} (h : r.check none = some a) :
    a.status = Answer.HTTP_STATUS_PRECONDITION_FAILED := by
  obtain ⟨ifMatch, stored⟩ := r
  cases ifMatch with
  | none => cases stored <;> contradiction
  | some header =>
    cases stored with
    | dataset =>
      obtain rfl := Option.some.inj h
      rfl
    | file =>
      obtain rfl := Option.some.inj h
      rfl

theorem IfMatchPut.answer_success {r : IfMatchPut} {p : Phase (Option (List Char))} {a : Answer}
    (h : r.answer p = some a) (hs : a.success = true) : p = .stored := by
  cases p with
  | stored => rfl
  | refused =>
    have h412 := check_none_status h
    simp [Answer.success, h412, Answer.HTTP_STATUS_PRECONDITION_FAILED] at hs
  | waiting => simp [answer] at h
  | stamped => simp [answer] at h
  | accepted => simp [answer] at h
  | writing => simp [answer] at h

/-- A request that carries a stamp accepts that stamp only. -/
theorem putRace_accepts {ι : Type} {reqs : ι → IfMatchPut} {i : ι} {c s : Stored}
    (h : (reqs i).ifMatch = c.etag) (hc : c.etag ≠ none) :
    (putRace reqs).accepts i s.etag = true ↔ s.etag = c.etag := by
  obtain ⟨e, he⟩ := Option.ne_none_iff_exists'.mp hc
  have haccepts : (putRace reqs).accepts i s.etag = ((reqs i).check s.etag).isNone := rfl
  rw [haccepts, IfMatchPut.check, h, he]
  cases hs : s.etag with
  | none => cases (reqs i).stored <;> simp [checkIfMatch, ussCheckIfMatch]
  | some e' =>
    have hiff := etagMatches_iff (c.isEtag he) (s.isEtag hs)
    rw [Option.some_inj, @eq_comm _ e' e, ← hiff]
    cases (reqs i).stored with
    | dataset => cases hm : etagMatches e e' <;> simp [checkIfMatch, hm]
    | file => cases hm : etagMatches e e' <;> simp [ussCheckIfMatch, hm]

/-- **No lost update.** In every run of requests that all carry the stamp of what was stored before,
whose new contents have other stamps, and of which none takes that stamp while another that did so
is not done. -/
theorem ifMatch_oneUpdate {ι : Type} [DecidableEq ι] (reqs : ι → IfMatchPut) (c : Stored)
    (x : State ι Stored (Option (List Char))) (hc : c.etag ≠ none)
    (hmatch : ∀ i, (reqs i).ifMatch = c.etag) (hnew : ∀ i, (reqs i).stored.etag ≠ c.etag)
    (hx : Reach (putRace reqs) (Alone (putRace reqs)) c x) : OneUpdate reqs x := by
  have hstored : ∀ i j, (putRace reqs).accepts i ((putRace reqs).stamp ((putRace reqs).stored j)) =
      false := by
    intro i j
    rw [← Bool.not_eq_true]
    exact fun h => hnew j ((putRace_accepts (hmatch i) hc).mp h)
  have hexcl := hx.exclusive hstored
  intro i j hij a ha hs
  obtain ⟨hothers, -⟩ := hexcl.stored i (IfMatchPut.answer_success ha hs)
  obtain ⟨-, hwritten, hnot⟩ := hothers j (Ne.symm hij)
  refine ⟨hwritten, fun b hb => ?_⟩
  cases hp : x.phase j with
  | stored => exact absurd hp hnot
  | refused =>
    rw [hp] at hb
    exact IfMatchPut.check_none_status hb
  | waiting => simp [hp, IfMatchPut.answer] at hb
  | stamped => simp [hp, IfMatchPut.answer] at hb
  | accepted => simp [hp, IfMatchPut.answer] at hb
  | writing => simp [hp, IfMatchPut.answer] at hb

/-- Two writes of a file, one character each. -/
def twoPuts (c : Stored) (i : Bool) : IfMatchPut := ⟨c.etag, .file [[if i then 0x82 else 0x83]]⟩

/-- The second request begins when the first is done. -/
theorem ifMatch_oneUpdate_serial :
    let c := Stored.file [[0x81]]
    OneUpdate (twoPuts c) (((((((State.init c).goto true (.stamped c.etag)).goto true .accepted).write
      true (twoPuts c true).stored).close true (twoPuts c true).stored).goto false
        (.stamped (twoPuts c true).stored.etag)).goto false .refused) := by
  intro c
  have hnew : ∀ i, (twoPuts c i).stored.etag ≠ c.etag := by
    decide +kernel
  have hc : c.etag ≠ none := Option.some_ne_none _
  have hmatch : ∀ i, (twoPuts c i).ifMatch = c.etag := fun _ => rfl
  have hfirst : (putRace (twoPuts c)).accepts true c.etag = true :=
    (putRace_accepts (hmatch true) hc).mpr rfl
  have hsecond : ¬ (putRace (twoPuts c)).accepts false (twoPuts c true).stored.etag = true :=
    fun h => hnew true ((putRace_accepts (hmatch false) hc).mp h)
  apply ifMatch_oneUpdate (twoPuts c) c _ hc hmatch hnew
  apply Reach.refuse _ rfl hsecond
  apply Reach.step _ (.stamp _ false rfl fun h => absurd h hsecond)
  apply Reach.step _ (.close _ true _ rfl fun _ => rfl)
  apply Reach.step _ (.write _ true _ (Or.inl rfl))
  apply Reach.accept _ rfl hfirst
  exact .step .init (.stamp _ true rfl fun _ j _ h => h)

/-- Both requests take the stamp, both compare it, and one after the other writes. -/
theorem ifMatch_lostUpdate :
    ¬ ∀ (reqs : Bool → IfMatchPut) c x, c.etag ≠ none → (∀ i, (reqs i).ifMatch = c.etag) →
      (∀ i, (reqs i).stored.etag ≠ c.etag) →
      (∀ i j, i ≠ j → (reqs i).stored.etag ≠ (reqs j).stored.etag) →
      Reach (putRace reqs) (fun _ _ => True) c x → OneUpdate reqs x := by
  intro h
  let c := Stored.file [[0x81]]
  let x := ((((State.init c).goto true (.stamped c.etag)).goto false (.stamped c.etag)).goto true
    .accepted).goto false .accepted
  have hc : c.etag ≠ none := Option.some_ne_none _
  have hmatch : ∀ i, (twoPuts c i).ifMatch = c.etag := fun _ => rfl
  have haccepts : ∀ i, (putRace (twoPuts c)).accepts i c.etag = true := by
    intro i
    exact (putRace_accepts (hmatch i) hc).mpr rfl
  have hboth : Reach (putRace (twoPuts c)) (fun _ _ => True) c x := by
    apply Reach.accept _ rfl (haccepts false)
    apply Reach.accept _ rfl (haccepts true)
    apply Reach.step _ (.stamp _ false rfl trivial)
    exact .step .init (.stamp _ true rfl trivial)
  have hlost := h (twoPuts c) c
    ((((x.write true (twoPuts c true).stored).close true (twoPuts c true).stored).write false
      (twoPuts c false).stored).close false (twoPuts c false).stored)
    hc hmatch (by decide +kernel) (by decide +kernel) (by
      apply Reach.step _ (.close _ false _ rfl fun _ => rfl)
      apply Reach.step _ (.write _ false _ (Or.inl rfl))
      apply Reach.step _ (.close _ true _ rfl fun _ => rfl)
      exact .step hboth (.write _ true _ (Or.inl rfl)))
  exact absurd (hlost true false nofun _ rfl rfl).1 nofun

end Mvsmf
