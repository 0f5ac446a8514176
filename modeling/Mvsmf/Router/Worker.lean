import Mvsmf.Lib.Monitor
import Mvsmf.Router.Dispatch
import Mathlib

/-!
# Workers

A watch goes along with what a worker task does for its requests: the ACEE in force, the request in
hand, and how those before it ended. Whatever the handlers do, each runs under the ACEE of its own
request, and a request has one reply unless its handler returned without one or storage was refused to
the router's report.
-/

namespace Mvsmf

open Prog

section
variable {A : Type}

/-! ## A watch on a worker -/

/-- How a request ended: with a reply of the router or of its handler, with one that was broken off, or
with none. -/
inductive RequestEnd
  | router
  | handler
  | aborted
  | silent
  deriving DecidableEq

/-- What is known of a worker task: the ACEE in force, whether the session has sent its headers, the
requests begun and how they ended, the last in front, and whether a handler abended and was not cleaned
up. -/
structure Watch (A : Type) where
  acee : Option A
  headersSent : Bool
  begun : Nat
  ends : List RequestEnd
  abended : Bool

def Watch.ended (w : Watch A) : Nat := w.ends.length

/-- A status line of the router's own. -/
def RouterCall.answers : RouterCall A → Bool
  | .httpResp _ | .sendDefaultHeaders _ | .sendErrorResponse _ => true
  | _ => false

/-- A task that has served `n` requests. -/
structure Watch.Idle (own : Option A) (n : Nat) (w : Watch A) : Prop where
  acee : w.acee = own
  begun : w.begun = n
  ended : w.ended = n
  abended : w.abended = false

variable [DecidableEq A]

/-- The former ACEE that a set gives is the one that was in force; other answers are not given. -/
def Watch.set (w : Watch A) (acee former : Option A) : Option (Watch A) :=
  if former = w.acee then some { w with acee := acee } else none

/-- A handler sets no ACEE, and the reply to its request is its own unless it abends; one that sent no
headers made none. -/
def Watch.next (w : Watch A) : RouterEvent A → Option (Watch A)
  | ⟨.initSession, _⟩ => some { w with headersSent := false, begun := w.begun + 1 }
  | ⟨.racfSetAcee acee, former⟩ => w.set acee former
  | ⟨.httpResp _, _⟩ => some { w with ends := .router :: w.ends }
  | ⟨.sendDefaultHeaders _, _⟩ => some { w with headersSent := true, ends := .router :: w.ends }
  | ⟨.sendErrorResponse _, (sent : Bool)⟩ =>
    some { w with headersSent := sent, ends := (if sent then .router else .silent) :: w.ends }
  | ⟨.handler _ _, ⟨.returned _, sent⟩⟩ =>
    some { w with headersSent := sent, ends := (if sent then .handler else .silent) :: w.ends }
  | ⟨.handler _ _, ⟨.abended _, sent⟩⟩ => some { w with headersSent := sent, abended := true }
  | ⟨.sessionCleanup, _⟩ => some { w with abended := false }
  | ⟨.abortResponse, _⟩ => some { w with ends := .aborted :: w.ends }

def watched (own : Option A) (t : List (RouterEvent A)) : Option (Watch A) :=
  t.foldl (fun w e => w.bind fun w => w.next e) (some ⟨own, false, 0, [], false⟩)

/-- A handler that returned without headers, or a report that was withheld. -/
def silentEvent : RouterEvent A → Bool
  | ⟨.handler _ _, ⟨.returned _, sent⟩⟩ => !sent
  | ⟨.sendErrorResponse _, (sent : Bool)⟩ => !sent
  | _ => false

/-- The handler that the routes have for a request, with the variables of its path. -/
def HandlerOf (isDev : Bool) (req : HttpRequest A) (h : RouteHandler) (vars : Option PathVars) :
    Prop :=
  ∃ raw method found set, req.path = some raw ∧ parseMethod req.method = some method ∧
    findRoute (mvsmfRoutes isDev) method (raw.take 1023) = some found ∧ found.handler = h ∧
    extractPathVars found.pattern.toList (raw.take 1023) = some set ∧ vars = some set

/-- A handler of the request, under the ACEE of the request; for a login or logout that of the task. -/
structure Watch.Runs (isDev : Bool) (own : Option A) (req : HttpRequest A) (h : RouteHandler)
    (vars : Option PathVars) (w : Watch A) : Prop where
  handler : HandlerOf isDev req h vars
  acee : w.acee = if h.isAuth then own else req.acee
  credential : h.isAuth = false → req.acee ≠ none

/-- What a worker may do: `reqs` are its requests. -/
def Watch.Allows (isDev : Bool) (own : Option A) (reqs : List (HttpRequest A)) (w : Watch A) :
    RouterCall A → Prop
  | .initSession => w.Idle own w.begun
  | .racfSetAcee _ => w.abended = false
  | .httpResp _ | .sendDefaultHeaders _ | .sendErrorResponse _ =>
    w.abended = false ∧ w.headersSent = false ∧ w.ended + 1 = w.begun
  | .handler h vars => w.abended = false ∧ w.headersSent = false ∧ w.ended + 1 = w.begun ∧
    ∃ req, reqs[w.begun - 1]? = some req ∧ w.Runs isDev own req h vars
  | .sessionCleanup => w.abended = true ∧ w.ended + 1 = w.begun
  | .abortResponse => w.abended = false ∧ w.headersSent = true ∧ w.ended + 1 = w.begun

variable (isDev : Bool) (own : Option A) (reqs : List (HttpRequest A))

/-- The watch as a monitor; where the answers are not given it allows everything. -/
def guard : Monitor (RouterCall A) RouterCall.Ans (Option (Watch A)) where
  next w e := w.bind fun w => w.next e
  allow w c := ∀ w' ∈ w, w'.Allows isDev own reqs c

variable {isDev own reqs}

theorem guard_none {ρ : Type} (p : RouterProg A ρ) :
    (guard isDev own reqs).Obeys none p fun w _ => w = none := by
  induction p with
  | ret r => rfl
  | call c k ih => exact ⟨by simp [guard], fun a => ih a⟩

/-- A step of the watch. -/
theorem obeys_perform {ρ : Type} {c : RouterCall A} {f : c.Ans → RouterProg A ρ} {w : Watch A}
    {Q : Option (Watch A) → ρ → Prop} (hallow : w.Allows isDev own reqs c)
    (hf : ∀ a, (guard isDev own reqs).Obeys (w.next ⟨c, a⟩) (f a) Q) :
    (guard isDev own reqs).Obeys (some w) (perform c >>= f) Q := by
  refine Monitor.obeys_ask_bind.mpr ⟨?_, hf⟩
  rintro w' ⟨⟩
  exact hallow

/-- The request in hand has not ended. -/
structure Watch.Due (w : Watch A) (n : Nat) (acee : Option A) : Prop where
  acee : w.acee = acee
  begun : w.begun = n + 1
  ended : w.ended = n
  abended : w.abended = false

/-- It has, and nothing is left to clean up. -/
structure Watch.Done (w : Watch A) (n : Nat) (acee : Option A) : Prop where
  acee : w.acee = acee
  begun : w.begun = n + 1
  ended : w.ended = n + 1
  abended : w.abended = false

theorem obeys_recoverHandler {w : Watch A} {n : Nat} {acee : Option A} (abend : UInt32)
    (hacee : w.acee = acee) (hbegun : w.begun = n + 1) (hended : w.ended = n)
    (habended : w.abended = true) :
    (guard isDev own reqs).Obeys (some w) (recoverHandler abend w.headersSent) fun w' _ =>
      ∃ w'' ∈ w', w''.Done n acee := by
  have hdue : w.ended + 1 = w.begun := by rw [hended, hbegun]
  refine obeys_perform ⟨habended, hdue⟩ fun _ => ?_
  cases hsent : w.headersSent with
  | false =>
    refine obeys_perform ⟨rfl, hsent, hdue⟩ fun _ => ?_
    exact ⟨_, rfl, hacee, hbegun, congrArg (· + 1) hended, rfl⟩
  | true =>
    refine obeys_perform ⟨rfl, hsent, hdue⟩ fun _ => ?_
    exact ⟨_, rfl, hacee, hbegun, congrArg (· + 1) hended, rfl⟩

/-- A route is served under the ACEE in force, and that ACEE stays. -/
theorem obeys_callRoute {req : HttpRequest A} {raw : List Char} {method : HttpMethod} {w : Watch A}
    {n : Nat} {acee : Option A} (hreq : reqs[n]? = some req) (hraw : req.path = some raw)
    (hmethod : parseMethod req.method = some method) (hdue : w.Due n acee)
    (hsent : w.headersSent = false)
    (hauth : acee = if raw.take 1023 = authenticatePath then own else req.acee)
    (hcredential : raw.take 1023 ≠ authenticatePath → req.acee ≠ none) :
    (guard isDev own reqs).Obeys (some w)
      (callRoute (mvsmfRoutes isDev) req method (raw.take 1023)) fun w' _ =>
        ∃ w'' ∈ w', w''.Done n acee := by
  obtain ⟨hacee, hbegun, hended, habended⟩ := hdue
  have hdue : w.ended + 1 = w.begun := by rw [hended, hbegun]
  rw [callRoute]
  cases hfound : findRoute (mvsmfRoutes isDev) method (raw.take 1023) with
  | none =>
    refine obeys_perform ⟨habended, hsent, hdue⟩ fun _ => ?_
    exact ⟨_, rfl, hacee, hbegun, congrArg (· + 1) hended, habended⟩
  | some found =>
    have hiff := isAuth_iff hfound
    obtain ⟨set, hset⟩ := findRoute_fits hfound
    apply obeys_perform
    · refine ⟨habended, hsent, hdue, req, ?_, ⟨raw, method, found, set, hraw, hmethod, hfound,
        rfl, hset, hset⟩, ?_, ?_⟩
      · rw [hbegun]
        exact hreq
      · rw [hacee, hauth]
        simp only [hiff]
      · intro hno
        apply hcredential
        rw [ne_eq, ← hiff, hno]
        exact Bool.false_ne_true
    · rintro ⟨how, sent⟩
      cases how with
      | returned rc => exact ⟨_, rfl, hacee, hbegun, congrArg (· + 1) hended, habended⟩
      | abended abend =>
        let w' : Watch A := { w with headersSent := sent, abended := true }
        exact @obeys_recoverHandler A _ isDev own reqs w' n acee abend hacee hbegun hended rfl

/-- A path that is cut is not the one without a credential. -/
theorem take_authenticatePath {raw : List Char} :
    raw.take 1023 = authenticatePath ↔ raw = authenticatePath := by
  have hshort : authenticatePath.length < 1023 := by decide
  constructor
  · intro h
    have hlen := congrArg List.length h
    rw [List.length_take] at hlen
    rwa [List.take_of_length_le (by omega)] at h
  · rintro rfl
    exact List.take_of_length_le hshort.le

/-- What is set is what is put back. -/
theorem obeys_handleRequest {req : HttpRequest A} {w : Watch A} {n : Nat}
    (hreq : reqs[n]? = some req) (hdue : w.Due n own) (hsent : w.headersSent = false) :
    (guard isDev own reqs).Obeys (some w) (handleRequest (mvsmfRoutes isDev) req) fun w' r =>
      ∀ w'' ∈ w', ∃ acee, w''.Done n acee ∧ r.2.getD acee = own := by
  obtain ⟨hacee, hbegun, hended, habended⟩ := hdue
  have hopen : w.ended + 1 = w.begun := by rw [hended, hbegun]
  have hended' : w.ended + 1 = n + 1 := congrArg (· + 1) hended
  rw [handleRequest]
  cases hpath : req.path with
  | none =>
    refine obeys_perform ⟨habended, hsent, hopen⟩ fun _ => ?_
    rintro _ ⟨⟩
    exact ⟨own, ⟨hacee, hbegun, hended', habended⟩, rfl⟩
  | some raw =>
    dsimp only [requestPathCopy, Option.map_some]
    cases hmethod : parseMethod req.method with
    | none =>
      refine obeys_perform ⟨habended, hsent, hopen⟩ fun _ => ?_
      rintro _ ⟨⟩
      exact ⟨own, ⟨hacee, hbegun, hended', habended⟩, rfl⟩
    | some method =>
      have htake := @take_authenticatePath raw
      rw [identityMiddleware, hpath]
      by_cases hauth : raw = authenticatePath
      · rw [if_pos (congrArg some hauth)]
        apply Monitor.obeys_bind.mpr
        apply Monitor.obeys_ret.mpr
        apply Monitor.obeys_bind.mpr
        apply (obeys_callRoute hreq hpath hmethod ⟨hacee, hbegun, hended, habended⟩ hsent
          (if_pos (htake.mpr hauth)).symm fun hne => absurd (htake.mpr hauth) hne).imp
        rintro w' rc ⟨w₁, hw₁, hdone⟩ w'' hw''
        cases Option.mem_unique hw₁ hw''
        exact ⟨own, hdone, rfl⟩
      · rw [if_neg fun h => hauth (Option.some.inj h)]
        cases hcred : req.acee with
        | none =>
          refine obeys_perform ⟨habended, hsent, hopen⟩ fun _ => ?_
          rintro _ ⟨⟩
          exact ⟨own, ⟨hacee, hbegun, hended', habended⟩, rfl⟩
        | some acee =>
          refine obeys_perform habended fun former => ?_
          by_cases hformer : former = w.acee
          · have hset : w.next ⟨.racfSetAcee (some acee), former⟩ =
                some { w with acee := some acee } := if_pos hformer
            rw [hset]
            apply Monitor.obeys_bind.mpr
            have hdue : ({ w with acee := some acee } : Watch A).Due n (some acee) :=
              ⟨rfl, hbegun, hended, habended⟩
            apply (obeys_callRoute hreq hpath hmethod hdue hsent
              (hcred.symm.trans (if_neg fun h => hauth (htake.mp h)).symm)
              fun _ h => by cases hcred.symm.trans h).imp
            rintro w' rc ⟨w₁, hw₁, hdone⟩ w'' hw''
            cases Option.mem_unique hw₁ hw''
            exact ⟨some acee, hdone, hformer.trans hacee⟩
          · have hset : w.next ⟨.racfSetAcee (some acee), former⟩ = none := if_neg hformer
            rw [hset]
            apply (guard_none _).imp
            rintro _ _ rfl
            exact fun _ hw => by cases hw

/-- One request. -/
theorem obeys_mvsmfMain {req : HttpRequest A} {w : Watch A} {n : Nat} (hreq : reqs[n]? = some req)
    (hidle : w.Idle own n) :
    (guard isDev own reqs).Obeys (some w) (mvsmfMain isDev req) fun w' _ =>
      ∀ w'' ∈ w', w''.Idle own (n + 1) := by
  obtain ⟨hacee, hbegun, hended, habended⟩ := hidle
  refine obeys_perform ⟨hacee, rfl, hended.trans hbegun.symm, habended⟩ fun _ => ?_
  apply Monitor.obeys_bind.mpr
  have hdue : ({ w with headersSent := false, begun := w.begun + 1 } : Watch A).Due n own :=
    ⟨hacee, congrArg (· + 1) hbegun, hended, habended⟩
  apply (obeys_handleRequest hreq hdue rfl).imp
  rintro w' ⟨rc, old⟩ hw'
  cases w' with
  | none =>
    apply (guard_none _).imp
    rintro _ _ rfl
    exact fun _ hw => by cases hw
  | some w' =>
    obtain ⟨acee, ⟨hacee, hbegun, hended, habended⟩, hold⟩ := hw' w' rfl
    cases old with
    | none =>
      rintro _ ⟨⟩
      exact ⟨hacee.trans hold, hbegun, hended, habended⟩
    | some old =>
      refine obeys_perform habended fun (former : Option A) => ?_
      intro w'' hw''
      have hset : w'.next ⟨.racfSetAcee old, former⟩ =
        if former = w'.acee then some { w' with acee := old } else none := rfl
      rw [hset] at hw''
      split at hw''
      · cases hw''
        exact ⟨hold, hbegun, hended, habended⟩
      · cases hw''

/-- The requests from the `n`th on. -/
theorem obeys_serveAll (rest : List (HttpRequest A)) {w : Option (Watch A)} {n : Nat}
    (hrest : reqs.drop n = rest) (hidle : ∀ w' ∈ w, w'.Idle own n) :
    (guard isDev own reqs).Obeys w (serveAll isDev rest) fun w' _ =>
      ∀ w'' ∈ w', w''.Idle own (n + rest.length) := by
  induction rest generalizing w n with
  | nil => exact hidle
  | cons req rest ih =>
    cases w with
    | none =>
      apply (guard_none _).imp
      rintro _ _ rfl
      exact fun _ hw => by cases hw
    | some w =>
      have hreq : reqs[n]? = some req := by
        rw [← List.head?_drop, hrest]
        rfl
      apply Monitor.obeys_bind.mpr
      apply (obeys_mvsmfMain hreq (hidle w rfl)).imp
      intro w' _ hw'
      have htail : reqs.drop (n + 1) = rest := by
        rw [← List.tail_drop, hrest]
        rfl
      have hlen : n + 1 + rest.length = n + (req :: rest).length := by
        rw [List.length_cons, Nat.add_assoc, Nat.add_comm 1]
      rw [← hlen]
      exact ih htail hw'

theorem next_silent {w w' : Watch A} {e : RouterEvent A} (h : w.next e = some w') :
    w'.ends.count .silent = w.ends.count .silent + if silentEvent e then 1 else 0 := by
  obtain ⟨c, a⟩ := e
  cases c
  case racfSetAcee acee =>
    obtain ⟨-, hset⟩ := Option.ite_none_right_eq_some.mp h
    cases hset
    rfl
  case sendErrorResponse report =>
    cases h
    cases (a : Bool)
    all_goals simp [silentEvent]
  case handler handler vars =>
    obtain ⟨how, sent⟩ := (a : HandlerEnd)
    cases how
    all_goals
      cases h
      cases sent
      all_goals simp [silentEvent]
  all_goals
    cases h
    simp [silentEvent]

/-- A request ends without a reply where its handler or the report made none. -/
theorem watched_silent {own : Option A} {t : List (RouterEvent A)} {w : Watch A}
    (h : watched own t = some w) : w.ends.count .silent = t.countP silentEvent := by
  induction t using List.reverseRecOn generalizing w with
  | nil =>
    cases h
    rfl
  | append_singleton t e ih =>
    rw [watched, List.foldl_append] at h
    obtain ⟨w', hw', hnext⟩ := Option.bind_eq_some_iff.mp h
    rw [next_silent hnext, ih hw', List.countP_append, List.countP_singleton]

variable (isDev own reqs) in
/-- **Workers.** Whatever the requests of a task are, and whatever their handlers do: a handler runs for
the request in hand, on the route of its method and path, under the ACEE of that request, which is
missing only at the login and the logout, where the ACEE of the task is in force; the router sends a
status line only where no headers were sent; an abended handler is cleaned up before anything else is
done. Behind the last request each has ended once, and the ACEE of the task is in force; without a reply
are those whose handler returned without headers or whose report was withheld. -/
theorem worker_identity {t : List (RouterEvent A)} (hrun : Run (serveAll isDev reqs) t ()) :
    (∀ before e behind w, t = before ++ e :: behind → watched own before = some w →
      w.Allows isDev own reqs e.1) ∧
    ∀ w, watched own t = some w →
      w.Idle own reqs.length ∧ w.ends.count .silent = t.countP silentEvent := by
  have hidle : ∀ w' ∈ some (⟨own, false, 0, [], false⟩ : Watch A), w'.Idle own 0 := by
    rintro _ ⟨⟩
    exact ⟨rfl, rfl, rfl, rfl⟩
  have hobeys : (guard isDev own reqs).Obeys (some ⟨own, false, 0, [], false⟩) (serveAll isDev reqs)
      fun w' _ => ∀ w'' ∈ w', w''.Idle own (0 + reqs.length) :=
    obeys_serveAll reqs rfl hidle
  constructor
  · intro before e behind w ht hw
    exact hobeys.allowed hrun ht w hw
  · intro w hw
    have hend := hobeys.result hrun w hw
    rw [Nat.zero_add] at hend
    exact ⟨hend, watched_silent hw⟩

end

/-- A system whose handlers abend with a protection exception. -/
def abendingWorld : World (RouterCall Nat) RouterCall.Ans (Option Nat)
  | .racfSetAcee acee, s => (s, acee)
  | .handler _ _, s => (⟨.abended 0x0C4000, false⟩, s)
  | .sendErrorResponse _, s => (true, s)
  | .initSession, s | .httpResp _, s | .sendDefaultHeaders _, s
  | .sessionCleanup, s | .abortResponse, s => ((), s)

/-- A request with a credential, and one without. -/
def infoRequests : List (HttpRequest Nat) :=
  [⟨"GET".toList, some "/zosmf/info".toList, some 7⟩, ⟨"GET".toList, some "/zosmf/info".toList, none⟩]

theorem worker_identity_abended :
    ∃ w, watched none ((serveAll true infoRequests).exec abendingWorld none).1 = some w ∧
      w.Idle none 2 ∧ w.ends = [.router, .router] := by
  have h := worker_identity true none infoRequests (exec_run abendingWorld _ none)
  exact ⟨_, rfl, (h.2 _ rfl).1, rfl⟩

end Mvsmf
