import Mvsmf.Router.RoutePattern
import Mathlib

/-!
# The registered routes

The routes that `main` registers, in its order. A development build has two more of them. No two
routes of a method match one path, which is seen from the patterns two by two.
-/

namespace Mvsmf

open Template

inductive HttpMethod
  | GET
  | POST
  | PUT
  | DELETE
  | HEAD
  | OPTIONS
  | PATCH
  deriving DecidableEq

inductive RouteHandler
  | infoHandler | testHandler | testWildcardHandler
  | authLoginHandler | authLogoutHandler
  | jobListHandler | jobFilesHandler | jobRecordsHandler | jobSubmitHandler
  | jobStatusHandler | jobCancelHandler | jobPurgeHandler
  | datasetListHandler | datasetGetHandler | datasetPutHandler | datasetCreateHandler
  | datasetDeleteHandler | memberListHandler | memberGetHandler | memberPutHandler
  | memberDeleteHandler
  | ussListHandler | ussGetHandler | ussPutHandler | ussCreateHandler | ussDeleteHandler
  | consoleIssueHandler | consoleCollectHandler | consoleDetectHandler | consoleLogHandler
  deriving DecidableEq

structure Route where
  method : HttpMethod
  pattern : String
  handler : RouteHandler
  deriving DecidableEq

open HttpMethod

/-- The calls of `add_route`; `isDev` says whether the diagnostic endpoint is built in and the
version is a development one. -/
def mvsmfRoutes (isDev : Bool) : List Route :=
  [⟨GET, "/zosmf/info", .infoHandler⟩] ++
  (if isDev then
    [⟨GET, "/zosmf/test", .testHandler⟩,
      ⟨GET, "/zosmf/test/wildcard/\x7b*filepath\x7d", .testWildcardHandler⟩]
  else []) ++
  [⟨POST, "/zosmf/services/authenticate", .authLoginHandler⟩,
    ⟨DELETE, "/zosmf/services/authenticate", .authLogoutHandler⟩,
    ⟨GET, "/zosmf/restjobs/jobs", .jobListHandler⟩,
    ⟨GET, "/zosmf/restjobs/jobs/\x7bjob-name\x7d/\x7bjobid\x7d/files", .jobFilesHandler⟩,
    ⟨GET, "/zosmf/restjobs/jobs/\x7bjob-name\x7d/\x7bjobid\x7d/files/\x7bddid\x7d/records",
      .jobRecordsHandler⟩,
    ⟨PUT, "/zosmf/restjobs/jobs", .jobSubmitHandler⟩,
    ⟨GET, "/zosmf/restjobs/jobs/\x7bjob-name\x7d/\x7bjobid\x7d", .jobStatusHandler⟩,
    ⟨PUT, "/zosmf/restjobs/jobs/\x7bjob-name\x7d/\x7bjobid\x7d", .jobCancelHandler⟩,
    ⟨DELETE, "/zosmf/restjobs/jobs/\x7bjob-name\x7d/\x7bjobid\x7d", .jobPurgeHandler⟩,
    ⟨GET, "/zosmf/restfiles/ds", .datasetListHandler⟩,
    ⟨GET, "/zosmf/restfiles/ds/\x7bdataset-name\x7d", .datasetGetHandler⟩,
    ⟨GET, "/zosmf/restfiles/ds/-(\x7bvolume-serial\x7d)/\x7bdataset-name\x7d", .datasetGetHandler⟩,
    ⟨PUT, "/zosmf/restfiles/ds/\x7bdataset-name\x7d", .datasetPutHandler⟩,
    ⟨PUT, "/zosmf/restfiles/ds/-(\x7bvolume-serial\x7d)/\x7bdataset-name\x7d", .datasetPutHandler⟩,
    ⟨POST, "/zosmf/restfiles/ds/\x7bdataset-name\x7d", .datasetCreateHandler⟩,
    ⟨DELETE, "/zosmf/restfiles/ds/\x7bdataset-name\x7d", .datasetDeleteHandler⟩,
    ⟨DELETE, "/zosmf/restfiles/ds/-(\x7bvolume-serial\x7d)/\x7bdataset-name\x7d",
      .datasetDeleteHandler⟩,
    ⟨GET, "/zosmf/restfiles/ds/\x7bdataset-name\x7d/member", .memberListHandler⟩,
    ⟨GET, "/zosmf/restfiles/ds/-(\x7bvolume-serial\x7d)/\x7bdataset-name\x7d/member",
      .memberListHandler⟩,
    ⟨GET, "/zosmf/restfiles/ds/\x7bdataset-name\x7d(\x7bmember-name\x7d)", .memberGetHandler⟩,
    ⟨GET, "/zosmf/restfiles/ds/-(\x7bvolume-serial\x7d)/\x7bdataset-name\x7d(\x7bmember-name\x7d)",
      .memberGetHandler⟩,
    ⟨PUT, "/zosmf/restfiles/ds/\x7bdataset-name\x7d(\x7bmember-name\x7d)", .memberPutHandler⟩,
    ⟨PUT, "/zosmf/restfiles/ds/-(\x7bvolume-serial\x7d)/\x7bdataset-name\x7d(\x7bmember-name\x7d)",
      .memberPutHandler⟩,
    ⟨DELETE, "/zosmf/restfiles/ds/\x7bdataset-name\x7d(\x7bmember-name\x7d)",
      .memberDeleteHandler⟩,
    ⟨DELETE,
      "/zosmf/restfiles/ds/-(\x7bvolume-serial\x7d)/\x7bdataset-name\x7d(\x7bmember-name\x7d)",
      .memberDeleteHandler⟩,
    ⟨GET, "/zosmf/restfiles/fs", .ussListHandler⟩,
    ⟨PUT, "/zosmf/restconsoles/consoles/\x7bconsole-name\x7d", .consoleIssueHandler⟩,
    ⟨GET, "/zosmf/restconsoles/consoles/\x7bconsole-name\x7d/solmsgs/\x7bcmd-response-key\x7d",
      .consoleCollectHandler⟩,
    ⟨GET, "/zosmf/restconsoles/consoles/\x7bconsole-name\x7d/detections/\x7bdetection-key\x7d",
      .consoleDetectHandler⟩,
    ⟨GET, "/zosmf/restconsoles/v1/log", .consoleLogHandler⟩,
    ⟨GET, "/zosmf/restfiles/fs/\x7b*filepath\x7d", .ussGetHandler⟩,
    ⟨PUT, "/zosmf/restfiles/fs/\x7b*filepath\x7d", .ussPutHandler⟩,
    ⟨POST, "/zosmf/restfiles/fs/\x7b*filepath\x7d", .ussCreateHandler⟩,
    ⟨DELETE, "/zosmf/restfiles/fs/\x7b*filepath\x7d", .ussDeleteHandler⟩]

/-- The route answers a method and a path. -/
def Route.serves (method : HttpMethod) (path : List Char) (r : Route) : Bool :=
  r.method == method && isPatternMatch r.pattern.toList path

def findRoute (routes : List Route) (method : HttpMethod) (path : List Char) : Option Route :=
  routes.find? (Route.serves method path)

/-! ## The patterns as templates -/

/-- The pieces of a pattern, in as many turns as it has characters. -/
def piecesOf : Nat → List Char → List RoutePiece
  | k + 1, '{' :: '*' :: t => .rest (t.takeWhile (· != '}')) :: piecesOf k (behindVar t)
  | k + 1, '{' :: t => .var (t.takeWhile (· != '}')) :: piecesOf k (behindVar t)
  | k + 1, c :: t => .lit c :: piecesOf k t
  | _, _ => []

/-- A route with its pattern as a list of characters. -/
structure RouteRow where
  method : HttpMethod
  chars : List Char
  handler : RouteHandler

def RouteRow.route (r : RouteRow) : Route := ⟨r.method, String.ofList r.chars, r.handler⟩

def RouteRow.pieces (r : RouteRow) : List RoutePiece := piecesOf r.chars.length r.chars

/-- The pattern is made of its pieces. -/
def RouteRow.ok (r : RouteRow) : Bool :=
  r.pieces.all RoutePiece.ok && patternText r.pieces == r.chars

/-- Routes of one method have patterns that do not meet. -/
def RouteRow.apart (r r' : RouteRow) : Bool :=
  r.method != r'.method || !meets isPathStop 200 r.pieces r'.pieces

theorem mvsmfRoutes_rows : ∃ rows : List RouteRow, mvsmfRoutes true = rows.map RouteRow.route ∧
    rows.all RouteRow.ok = true ∧ rows.Pairwise fun r r' => r.apart r' = true := by
  -- a literal is a list of characters as it stands; to decode it takes far longer
  refine ⟨⟨_, _, _⟩ :: ⟨_, _, _⟩ :: ⟨_, _, _⟩ :: ⟨_, _, _⟩ :: ⟨_, _, _⟩ :: ⟨_, _, _⟩ :: ⟨_, _, _⟩ ::
    ⟨_, _, _⟩ :: ⟨_, _, _⟩ :: ⟨_, _, _⟩ :: ⟨_, _, _⟩ :: ⟨_, _, _⟩ :: ⟨_, _, _⟩ :: ⟨_, _, _⟩ ::
    ⟨_, _, _⟩ :: ⟨_, _, _⟩ :: ⟨_, _, _⟩ :: ⟨_, _, _⟩ :: ⟨_, _, _⟩ :: ⟨_, _, _⟩ :: ⟨_, _, _⟩ ::
    ⟨_, _, _⟩ :: ⟨_, _, _⟩ :: ⟨_, _, _⟩ :: ⟨_, _, _⟩ :: ⟨_, _, _⟩ :: ⟨_, _, _⟩ :: ⟨_, _, _⟩ ::
    ⟨_, _, _⟩ :: ⟨_, _, _⟩ :: ⟨_, _, _⟩ :: ⟨_, _, _⟩ :: ⟨_, _, _⟩ :: ⟨_, _, _⟩ :: ⟨_, _, _⟩ ::
    ⟨_, _, _⟩ :: ⟨_, _, _⟩ :: [], rfl, ?_, ?_⟩
  · decide +kernel
  · decide +kernel

theorem mvsmfRoutes_sublist (isDev : Bool) : (mvsmfRoutes isDev).Sublist (mvsmfRoutes true) := by
  cases isDev with
  | true => exact List.Sublist.refl _
  | false =>
    refine List.Sublist.append (List.Sublist.append (List.Sublist.refl _) ?_) (List.Sublist.refl _)
    exact List.nil_sublist _

theorem RouteRow.serves_iff {r : RouteRow} (hr : r.ok = true) {method : HttpMethod}
    {path : List Char} : r.route.serves method path = true ↔
      r.method = method ∧ spans isPathStop r.pieces path ≠ none := by
  obtain ⟨hok, htext⟩ := Bool.and_eq_true_iff.mp hr
  rw [Route.serves, RouteRow.route, Bool.and_eq_true, beq_iff_eq, String.toList_ofList,
    ← beq_iff_eq.mp htext, isPatternMatch_text hok, Option.isSome_iff_ne_none]

/-- Two routes do not serve the same request. -/
theorem RouteRow.serves_apart {r r' : RouteRow} (hr : r.ok = true) (hr' : r'.ok = true)
    (h : r.apart r' = true) {method : HttpMethod} {path : List Char}
    (hs : r.route.serves method path = true) : r'.route.serves method path = false := by
  obtain ⟨hmethod, hspans⟩ := (RouteRow.serves_iff hr).mp hs
  rw [Bool.eq_false_iff]
  intro hs'
  obtain ⟨hmethod', hspans'⟩ := (RouteRow.serves_iff hr').mp hs'
  have hmeets : meets isPathStop 200 r.pieces r'.pieces = false := by
    simpa [RouteRow.apart, hmethod, hmethod'] using h
  exact hspans' (spans_eq_none hmeets hspans)

theorem served_pairwise (isDev : Bool) (method : HttpMethod) (path : List Char) :
    (mvsmfRoutes isDev).Pairwise fun r r' =>
      r.serves method path = true → r'.serves method path = false := by
  apply List.Pairwise.sublist (mvsmfRoutes_sublist isDev)
  obtain ⟨rows, heq, hok, hapart⟩ := mvsmfRoutes_rows
  rw [heq, List.pairwise_map]
  have hrow := List.all_eq_true.mp hok
  exact hapart.imp_of_mem fun hr hr' h => RouteRow.serves_apart (hrow _ hr) (hrow _ hr') h

/-- **One route at most.** Of the registered routes no more than one serves a method and a path, and
the route search finds the same one in whatever order they are registered. -/
theorem findRoute_unique (isDev : Bool) (method : HttpMethod) (path : List Char) :
    ((mvsmfRoutes isDev).filter (Route.serves method path)).length ≤ 1 ∧
    ∀ routes : List Route, routes.Perm (mvsmfRoutes isDev) →
      findRoute routes method path = findRoute (mvsmfRoutes isDev) method path := by
  have hone : ((mvsmfRoutes isDev).filter (Route.serves method path)).length ≤ 1 := by
    have hpair := (served_pairwise isDev method path).filter (Route.serves method path)
    match hserved : (mvsmfRoutes isDev).filter (Route.serves method path) with
    | [] => exact Nat.zero_le _
    | [_] => exact Nat.le_refl _
    | r :: r' :: rs =>
      rw [hserved] at hpair
      have hmem : ∀ x ∈ r :: r' :: rs, x.serves method path = true := by
        intro x hx
        rw [← hserved] at hx
        exact List.of_mem_filter hx
      have hno := List.rel_of_pairwise_cons hpair List.mem_cons_self (hmem r List.mem_cons_self)
      rw [hmem r' (by simp)] at hno
      contradiction
  refine ⟨hone, fun routes hperm => ?_⟩
  have hserved := hperm.filter (Route.serves method path)
  rw [findRoute, findRoute, ← List.head?_filter, ← List.head?_filter]
  match hs : (mvsmfRoutes isDev).filter (Route.serves method path) with
  | [] => rw [hs] at hserved; rw [hserved.eq_nil]
  | [r] => rw [hs] at hserved; rw [List.perm_singleton.mp hserved]
  | r :: r' :: rs => rw [hs] at hone; simp at hone

theorem findRoute_unique_reversed :
    findRoute (mvsmfRoutes false).reverse GET "/zosmf/restfiles/ds/A.B(C)".toList =
      findRoute (mvsmfRoutes false) GET "/zosmf/restfiles/ds/A.B(C)".toList :=
  (findRoute_unique false GET _).2 _ (List.reverse_perm _)

end Mvsmf
