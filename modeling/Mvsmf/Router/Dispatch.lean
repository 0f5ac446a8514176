import Mvsmf.Common.Answer
import Mvsmf.Common.Etag
import Mvsmf.Lib.Prog
import Mvsmf.Router.Routes
import Mathlib

/-!
# A request from end to end

`main` of mvsmf.c puts the caller's ACEE in force, `handle_request` of router.c finds the route and
calls its handler under recovery, and `main` puts the former ACEE back. A worker task serves one
request after another: no handler runs under what an earlier request left, and each request has one
answer, be its handler abended or not.
-/

namespace Mvsmf

/-! ## The report of an abend -/

def ABEND_MSG_SIZE : Nat := 96

/-- The detail of the codes that a full data set gives. -/
def abendDetail (sys : UInt32) : Option String :=
  if sys = 0xB37 then some "out of space on the volume"
  else if sys = 0xD37 then some "primary extent full, no secondary allocation"
  else if sys = 0xE37 then some "extent limit reached"
  else none

/-- A code under `%03X`. -/
def hex3 (n : UInt32) : List Char := (hex8 n).drop 5

/-- A code under `%04d`. -/
def dec4 (n : UInt32) : List Char := List.leftpad 4 '0' (Nat.toDigits 10 n.toNat)

def abendMessage (size : Nat) (sys usr : UInt32) : List Char :=
  List.take (size - 1) <|
    "Internal server error (abend ".toList ++
      if sys = 0 then 'U' :: (dec4 usr ++ ")".toList)
      else match abendDetail sys with
        | some detail => 'S' :: (hex3 sys ++ ": ".toList ++ detail.toList ++ ")".toList)
        | none => 'S' :: (hex3 sys ++ ")".toList)

/-- An open that was refused for want of authority. -/
def abendDenialDetail (sys : UInt32) : Option String :=
  if sys = 0x913 then
    some ("Authorization failed - You may not use this protected data set." ++ " Open 913 abend.")
  else none

/-- The report on a handler that abended before it answered; `abend` is what `tryrc` gives. -/
def abendReport (abend : UInt32) : Answer :=
  let sys := abend >>> 12 &&& 0xFFF
  let usr := abend &&& 0xFFF
  match abendDenialDetail sys with
  | some denial => ⟨500, 4, 8, 0, "LMOPEN error", [denial]⟩
  | none => ⟨500, 6, 8, 99, String.ofList (abendMessage ABEND_MSG_SIZE sys usr), []⟩

/-! ## The calls of a request -/

/-- A request as the server has parsed it, with the ACEE of its credential, if it had one. -/
structure HttpRequest (A : Type) where
  method : List Char
  path : Option (List Char)
  acee : Option A

/-- How a handler comes back from `try`. -/
inductive TryEnd
  | returned (rc : Int)
  | abended (abend : UInt32)

/-- The end of a handler, and whether its session has sent the headers. -/
structure HandlerEnd where
  how : TryEnd
  headersSent : Bool

inductive RouterCall (A : Type)
  | initSession
  | racfSetAcee (acee : Option A)
  | httpResp (status : Nat)
  | sendDefaultHeaders (status : Nat)
  | sendErrorResponse (a : Answer)
  | handler (h : RouteHandler) (vars : Option PathVars)
  | sessionCleanup
  | abortResponse

/-- Setting an ACEE gives the former one, and a report is sent or, for want of storage, withheld. -/
def RouterCall.Ans {A : Type} : RouterCall A → Type
  | .racfSetAcee _ => Option A
  | .sendErrorResponse _ => Bool
  | .handler _ _ => HandlerEnd
  | _ => Unit

section
variable {A : Type}

abbrev RouterProg (A : Type) := Prog (RouterCall A) RouterCall.Ans

abbrev RouterEvent (A : Type) := Prog.Event (RouterCall A) RouterCall.Ans

def perform (c : RouterCall A) : RouterProg A c.Ans := Prog.ask c

/-! ## `handle_request` -/

/-- A longer path is cut. -/
def requestPathCopy (raw : Option (List Char)) (outSize : Nat) : Option (List Char) :=
  raw.map (List.take (outSize - 1))

def parseMethod (method : List Char) : Option HttpMethod :=
  if method = "GET".toList then some .GET
  else if method = "POST".toList then some .POST
  else if method = "PUT".toList then some .PUT
  else if method = "DELETE".toList then some .DELETE
  else none

def pathIsKnown (routes : List Route) (path : List Char) : Bool :=
  routes.any fun r => isPatternMatch r.pattern.toList path

def methodNotSupported (method : List Char) : Answer :=
  ⟨405, 6, 4, 7, String.ofList (List.take 63
    ("Http method ".toList ++ method ++ " is not supported by this URL".toList)), []⟩

def routeNotFound : Answer := ⟨404, 6, 4, 7, "Not Found", []⟩

def authenticatePath : List Char := "/zosmf/services/authenticate".toList

/-- The return code, and the former ACEE if the session has set one. -/
def identityMiddleware (req : HttpRequest A) : RouterProg A (Int × Option (Option A)) := do
  if req.path = some authenticatePath then return (0, none)
  else
    match req.acee with
    | none =>
      perform (.sendDefaultHeaders 401)
      return (-1, none)
    | some acee =>
      let old ← perform (.racfSetAcee (some acee))
      return (0, some old)

/-- What is done behind an abend of the handler. -/
def recoverHandler (abend : UInt32) (headersSent : Bool) : RouterProg A Int := do
  perform .sessionCleanup
  if headersSent = false then
    let _ ← perform (.sendErrorResponse (abendReport abend))
    return -1
  else
    perform .abortResponse
    return -1

/-- The search for the route, and its handler under `try`. -/
def callRoute (routes : List Route) (req : HttpRequest A) (method : HttpMethod)
    (path : List Char) : RouterProg A Int := do
  match findRoute routes method path with
  | none =>
    let _ ← perform (.sendErrorResponse
      (if pathIsKnown routes path then methodNotSupported req.method else routeNotFound))
    return -1
  | some found =>
    let behind ← perform (.handler found.handler (extractPathVars found.pattern.toList path))
    match behind.how with
    | .returned rc => return rc
    | .abended abend => recoverHandler abend behind.headersSent

def handleRequest (routes : List Route) (req : HttpRequest A) :
    RouterProg A (Int × Option (Option A)) := do
  match requestPathCopy req.path 1024 with
  | none =>
    perform (.httpResp 400)
    return (-1, none)
  | some path =>
    match parseMethod req.method with
    | none =>
      perform (.httpResp 405)
      return (-1, none)
    | some method =>
      let (rc, old) ← identityMiddleware req
      if rc ≠ 0 then return (rc, old)
      else
        let rc ← callRoute routes req method path
        return (rc, old)

/-- `main` for one request. -/
def mvsmfMain (isDev : Bool) (req : HttpRequest A) : RouterProg A Unit := do
  perform .initSession
  let (_, old) ← handleRequest (mvsmfRoutes isDev) req
  match old with
  | none => return ()
  | some old =>
    let _ ← perform (.racfSetAcee old)
    return ()

/-- The requests that a worker task is given, one after another. -/
def serveAll (isDev : Bool) : List (HttpRequest A) → RouterProg A Unit
  | [] => return ()
  | req :: reqs => do
    mvsmfMain isDev req
    serveAll isDev reqs

end

/-! ## The routes without a credential -/

/-- The handlers that log a client in and out. -/
def RouteHandler.isAuth : RouteHandler → Bool
  | .authLoginHandler | .authLogoutHandler => true
  | _ => false

open Template in
/-- A pattern without variables is a path. -/
theorem isPatternMatch_lit {p path : List Char} (hp : '{' ∉ p) (h : isPatternMatch p path = true) :
    path = p := by
  let ps : List RoutePiece := p.map .lit
  have htext : patternText ps = p := by
    rw [patternText, List.flatMap_map]
    exact List.flatMap_singleton' p
  have hok : ps.all RoutePiece.ok = true := by
    rw [List.all_map, List.all_eq_true]
    intro c hc
    rw [Function.comp_apply, RoutePiece.ok, bne_iff_ne]
    rintro rfl
    exact hp hc
  rw [← htext, isPatternMatch_text hok] at h
  obtain ⟨vs, hvs⟩ := Option.isSome_iff_exists.mp h
  rw [← fillIn_spans hvs]
  have hfill (q : List Char) : fillIn (q.map Piece.lit : List RoutePiece) vs = q := by
    induction q with
    | nil => rfl
    | cons c q ih => rw [List.map_cons, fillIn, ih]
  exact hfill p

theorem mvsmfRoutes_auth : (mvsmfRoutes true).all (fun r => if r.handler.isAuth
    then r.pattern.toList == authenticatePath
    else !isPatternMatch r.pattern.toList authenticatePath) = true := by
  decide +kernel

/-- The routes of the login and the logout are those of the one path. -/
theorem isAuth_iff {isDev : Bool} {method : HttpMethod} {path : List Char} {found : Route}
    (h : findRoute (mvsmfRoutes isDev) method path = some found) :
    found.handler.isAuth = true ↔ path = authenticatePath := by
  have hmem := (mvsmfRoutes_sublist isDev).subset (List.mem_of_find?_eq_some h)
  have hall := List.all_eq_true.mp mvsmfRoutes_auth found hmem
  have hserves : found.serves method path = true := List.find?_some h
  obtain ⟨-, hserves⟩ := Bool.and_eq_true_iff.mp hserves
  constructor
  · intro hauth
    rw [if_pos hauth, beq_iff_eq] at hall
    rw [hall] at hserves
    exact isPatternMatch_lit (by decide) hserves
  · rintro rfl
    by_contra hauth
    rw [if_neg hauth, hserves] at hall
    cases hall

theorem mvsmfRoutes_short :
    (mvsmfRoutes true).all (fun r => r.pattern.toList.length ≤ 250) = true := by
  decide +kernel

/-- The variables of a path that is served fit their buffers. -/
theorem findRoute_fits {isDev : Bool} {method : HttpMethod} {raw : List Char} {found : Route}
    (h : findRoute (mvsmfRoutes isDev) method (raw.take 1023) = some found) :
    ∃ vars, extractPathVars found.pattern.toList (raw.take 1023) = some vars := by
  have hmem := (mvsmfRoutes_sublist isDev).subset (List.mem_of_find?_eq_some h)
  have hshort := List.all_eq_true.mp mvsmfRoutes_short found hmem
  apply extractPathVars_fits (of_decide_eq_true hshort)
  rw [List.length_take]
  omega

end Mvsmf
