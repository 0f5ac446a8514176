import Mvsmf.Lib.Operands
import Mathlib

/-!
# JES spool authorization

The functions of `jwn.c`. A job of the caller is the caller's; for any other job the entity
`<owner>.<jobname>.<jobid>` is put to RACF, and the level found is remembered for the request under
the first characters of the entity, which is as far as RACF looks.
-/

namespace Mvsmf

open Jcl

def JWN_CHARS : Text := "ABCDEFGHIJKLMNOPQRSTUVWXYZ0123456789$#@".toList
def JWN_COMPMAX : Nat := 8
def JWN_ENTSZ : Nat := 27
def JWN_KEYLEN : Nat := 8
def JWN_PRTSZ : Nat := 9
def JWN_CACHEMAX : Nat := 16

inductive JwnOp where
  | list | read | purge
deriving DecidableEq, Repr

inductive JwnLevel where
  | err | noProfile | none | read | update
deriving DecidableEq, Repr

inductive JwnDecision where
  | hide | allow | noPurge
deriving DecidableEq, Repr

inductive JwnReason where
  | errRc | own | noAcee | errComponent | noProfile | none | read | update
deriving DecidableEq, Repr

/-! ## Components and entities -/

def jwnComponentOk (s : Text) : Bool :=
  !s.isEmpty && s.length ≤ JWN_COMPMAX && s.all JWN_CHARS.contains

def jwnEntity (sz : Nat) (owner jobname jobid : Text) : Option Text :=
  if !owner.isEmpty && !jwnComponentOk owner then none
  else if !jwnComponentOk jobname || !jwnComponentOk jobid then none
  else
    let entity := owner ++ '.' :: jobname ++ '.' :: jobid
    if entity.length + 1 > sz then none else some entity

def jwnProbe (sz : Nat) (userid : Text) : Option Text :=
  if !userid.isEmpty && !jwnComponentOk userid then none
  else if userid.length + 2 + 1 > sz then none
  else some (userid ++ ['.', '.'])

/-! ## Ownership -/

def hasFiller (s : Text) : Bool := s.any (· ≤ ' ')

def jwnMine (owner user : Text) : Bool :=
  !owner.isEmpty && !user.isEmpty && !hasFiller owner && !hasFiller user && owner == user

/-! ## Level and decision -/

/-- `auth` is the one question to RACF: the entity, and whether UPDATE is wanted. -/
structure JwnCtx where
  aceePresent : Bool
  user : Text
  auth : Option (Text → Bool → Int)

/-- The level with the return code it came from and the calls it took. -/
structure JwnAnswer where
  level : JwnLevel
  rc : Int
  racfCalls : Nat
deriving DecidableEq, Repr

def jwnLevel (ctx : JwnCtx) (entity : Text) (wantUpdate : Bool) : JwnAnswer :=
  match ctx.auth with
  | none => ⟨.err, -1, 0⟩
  | some auth =>
    let rc := auth entity false
    if rc = 4 then ⟨.noProfile, rc, 1⟩
    else if rc = 8 then ⟨.none, rc, 1⟩
    else if rc ≠ 0 then ⟨.err, rc, 1⟩
    else if !wantUpdate then ⟨.read, rc, 1⟩
    else
      let rc := auth entity true
      if rc = 0 then ⟨.update, rc, 2⟩
      else if rc = 8 then ⟨.read, rc, 2⟩
      else ⟨.err, rc, 2⟩

structure JwnEntry where
  key : Text
  update : Bool
  level : JwnLevel
  rc : Int
deriving DecidableEq, Repr

abbrev JwnCache := List JwnEntry

def JwnEntry.answers (x : JwnEntry) (entity : Text) (wantUpdate : Bool) : Bool :=
  x.update == wantUpdate && x.key == entity.take JWN_KEYLEN

/-- No cache: RACF is asked every time. -/
def levelCached (ctx : JwnCtx) (cache : Option JwnCache) (entity : Text) (wantUpdate : Bool) :
    JwnAnswer × Option JwnCache :=
  match cache with
  | none => (jwnLevel ctx entity wantUpdate, none)
  | some c =>
    match c.find? (·.answers entity wantUpdate) with
    | some x => (⟨x.level, x.rc, 0⟩, some c)
    | none =>
      let a := jwnLevel ctx entity wantUpdate
      if a.level ≠ .err ∧ c.length < JWN_CACHEMAX then
        (a, some (c ++ [⟨entity.take JWN_KEYLEN, wantUpdate, a.level, a.rc⟩]))
      else (a, some c)

def jwnDecide (op : JwnOp) : JwnLevel → JwnDecision
  | .read => if op = .purge then .noPurge else .allow
  | .update => .allow
  | _ => .hide

def reasonOf : JwnLevel → JwnReason
  | .noProfile => .noProfile
  | .none => .none
  | .read => .read
  | .update => .update
  | .err => .errRc

structure JwnRes where
  decision : JwnDecision
  reason : JwnReason
  level : JwnLevel
  rc : Int
  elen : Nat
  racfCalls : Nat
deriving DecidableEq, Repr

/-- The result before anything is known. -/
def JwnRes.closed : JwnRes := ⟨.hide, .errRc, .err, -1, 0, 0⟩

/-- What is asked of a job, and the words the job has for itself. -/
structure JwnCall where
  op : JwnOp
  owner : Text
  jobname : Text
  jobid : Text
deriving DecidableEq, Repr

def JwnCall.entity (c : JwnCall) : Option Text := jwnEntity JWN_ENTSZ c.owner c.jobname c.jobid

def jwnCheck (ctx : JwnCtx) (cache : Option JwnCache) (c : JwnCall) : JwnRes × Option JwnCache :=
  if !ctx.aceePresent || ctx.user.isEmpty then
    ({ JwnRes.closed with reason := .noAcee }, cache)
  else if jwnMine c.owner ctx.user then
    ({ JwnRes.closed with decision := .allow, reason := .own }, cache)
  else
    match c.entity with
    | none => ({ JwnRes.closed with reason := .errComponent }, cache)
    | some entity =>
      let (a, cache) := levelCached ctx cache entity (c.op = .purge)
      (⟨jwnDecide c.op a.level, reasonOf a.level, a.level, a.rc, entity.length, a.racfCalls⟩, cache)

/-- The checks of a request, one after the other. -/
def jwnChecks (ctx : JwnCtx) (cache : Option JwnCache) : List JwnCall → List JwnRes × Option JwnCache
  | [] => ([], cache)
  | c :: calls =>
    let (r, cache) := jwnCheck ctx cache c
    let (rs, cache) := jwnChecks ctx cache calls
    (r :: rs, cache)

/-! ## The owner filter -/

def jwnMatch (pattern owner : Text) : Bool :=
  if pattern.isEmpty then false
  else if pattern = ['*'] then true
  else !owner.isEmpty && jwnComponentOk pattern && owner == pattern

inductive JwnKind where
  | bad | reset | own | all | other
deriving DecidableEq, Repr

/-- The kind of an owner filter value, and the value in upper case. -/
def jwnNarrows (user value : Text) (sz : Nat) : JwnKind × Text :=
  if sz < JWN_PRTSZ || value.length > JWN_COMPMAX then (.bad, [])
  else
    let up := value.map Char.toUpper
    if up.isEmpty then (.reset, up)
    else if jwnMine up user then (.own, up)
    else if up = ['*'] then (.all, up)
    else if jwnComponentOk up then (.other, up)
    else (.bad, [])

def jwnPrintable (sz : Nat) (value : Text) : Text :=
  (value.take (min JWN_COMPMAX (sz - 1))).map fun c => if JWN_CHARS.contains c then c else '?'

/-! ## The cache -/

/-- RACF cuts an entity at `JWN_KEYLEN` characters before it looks for a profile. -/
def JwnCtx.Cuts (ctx : JwnCtx) : Prop :=
  ∀ auth, ctx.auth = some auth → ∀ e e', e.take JWN_KEYLEN = e'.take JWN_KEYLEN →
    ∀ wantUpdate, auth e wantUpdate = auth e' wantUpdate

theorem jwnLevel_cut {ctx : JwnCtx} (h : ctx.Cuts) {e e' : Text}
    (he : e.take JWN_KEYLEN = e'.take JWN_KEYLEN) (wantUpdate : Bool) :
    jwnLevel ctx e wantUpdate = jwnLevel ctx e' wantUpdate := by
  unfold jwnLevel
  cases hauth : ctx.auth with
  | none => rfl
  | some auth => simp only [h auth hauth e e' he]

/-- A RACF that looks at no more than the first `n` characters. -/
theorem cuts_of_take {n : Nat} (hn : n ≤ JWN_KEYLEN) (f : Text → Bool → Int) {ctx : JwnCtx}
    (hauth : ctx.auth = some fun e wantUpdate => f (e.take n) wantUpdate) : ctx.Cuts := by
  intro auth h e e' he wantUpdate
  obtain rfl := Option.some.inj (hauth.symm.trans h)
  have htake := congrArg (List.take n) he
  rw [List.take_take, List.take_take, Nat.min_eq_left hn] at htake
  dsimp only
  rw [htake]

/-- Every entry is what RACF says of each entity with its key. -/
def JwnCtx.Remembers (ctx : JwnCtx) (c : JwnCache) : Prop :=
  ∀ x ∈ c, ∀ e, e.take JWN_KEYLEN = x.key →
    (jwnLevel ctx e x.update).level = x.level ∧ (jwnLevel ctx e x.update).rc = x.rc

/-- What holds of a cache between two checks. -/
structure JwnCtx.Sound (ctx : JwnCtx) (cache : Option JwnCache) : Prop where
  remembers : ∀ c, cache = some c → ctx.Remembers c
  fits : ∀ c, cache = some c → c.length ≤ JWN_CACHEMAX

theorem JwnCtx.sound_init (ctx : JwnCtx) : ctx.Sound (some []) := by
  constructor
  · intro c hc x hx
    cases hc
    simp at hx
  · intro c hc
    cases hc
    simp

theorem JwnCtx.Remembers.concat {ctx : JwnCtx} {c : JwnCache} (h : ctx.Remembers c)
    (hcuts : ctx.Cuts) (entity : Text) (wantUpdate : Bool) :
    ctx.Remembers (c ++ [⟨entity.take JWN_KEYLEN, wantUpdate, (jwnLevel ctx entity wantUpdate).level,
      (jwnLevel ctx entity wantUpdate).rc⟩]) := by
  intro x hx e he
  rcases List.mem_append.mp hx with hx | hx
  · exact h x hx e he
  · obtain rfl := List.mem_singleton.mp hx
    rw [jwnLevel_cut hcuts he]
    exact ⟨rfl, rfl⟩

/-- **One question.** The level and the return code are RACF's, and the cache stays sound. -/
theorem levelCached_spec {ctx : JwnCtx} (hcuts : ctx.Cuts) {cache : Option JwnCache}
    (h : ctx.Sound cache) (entity : Text) (wantUpdate : Bool) :
    (levelCached ctx cache entity wantUpdate).1.level = (jwnLevel ctx entity wantUpdate).level ∧
    (levelCached ctx cache entity wantUpdate).1.rc = (jwnLevel ctx entity wantUpdate).rc ∧
    ctx.Sound (levelCached ctx cache entity wantUpdate).2 := by
  cases cache with
  | none => exact ⟨rfl, rfl, h⟩
  | some c =>
    simp only [levelCached]
    cases hf : c.find? (·.answers entity wantUpdate) with
    | some x =>
      have hx := List.find?_some hf
      simp only [JwnEntry.answers, Bool.and_eq_true, beq_iff_eq] at hx
      obtain ⟨rfl, hkey⟩ := hx
      have := h.remembers c rfl x (List.mem_of_find?_eq_some hf) entity hkey.symm
      exact ⟨this.1.symm, this.2.symm, h⟩
    | none =>
      dsimp only
      split
      next hroom =>
        refine ⟨rfl, rfl, ?_, ?_⟩
        · intro c' hc'
          cases hc'
          exact (h.remembers c rfl).concat hcuts entity wantUpdate
        · intro c' hc'
          cases hc'
          rw [List.length_append]
          exact hroom.2
      next => exact ⟨rfl, rfl, h⟩

/-! ## Checks -/

/-- The same, the number of calls to RACF aside. -/
def JwnRes.Same (r r' : JwnRes) : Prop := r = { r' with racfCalls := r.racfCalls }

theorem JwnRes.Same.decision {r r' : JwnRes} (h : r.Same r') : r.decision = r'.decision := by
  rw [h]

theorem jwnCheck_spec {ctx : JwnCtx} (hcuts : ctx.Cuts) {cache : Option JwnCache}
    (h : ctx.Sound cache) (c : JwnCall) :
    (jwnCheck ctx cache c).1.Same (jwnCheck ctx none c).1 ∧ ctx.Sound (jwnCheck ctx cache c).2 := by
  unfold jwnCheck
  split
  next => exact ⟨rfl, h⟩
  next =>
    split
    next => exact ⟨rfl, h⟩
    next =>
      cases c.entity with
      | none => exact ⟨rfl, h⟩
      | some entity =>
        obtain ⟨hlevel, hrc, hsound⟩ := levelCached_spec hcuts h entity (c.op = .purge)
        refine ⟨?_, hsound⟩
        simp only [JwnRes.Same, hlevel, hrc]
        rfl

theorem jwnChecks_spec {ctx : JwnCtx} (hcuts : ctx.Cuts) {cache : Option JwnCache}
    (h : ctx.Sound cache) (calls : List JwnCall) :
    List.Forall₂ (fun c r => JwnRes.Same r (jwnCheck ctx none c).1) calls
      (jwnChecks ctx cache calls).1 ∧ ctx.Sound (jwnChecks ctx cache calls).2 := by
  induction calls generalizing cache with
  | nil => exact ⟨.nil, h⟩
  | cons c calls ih =>
    obtain ⟨hsame, hsound⟩ := jwnCheck_spec hcuts h c
    obtain ⟨hrest, hend⟩ := ih hsound
    exact ⟨.cons hsame hrest, hend⟩

/-- Without READ nothing is allowed, whatever was asked for. -/
theorem jwnDecide_denied {ctx : JwnCtx} {entity : Text}
    (h : ∀ auth, ctx.auth = some auth → auth entity false ≠ 0) (op : JwnOp) (wantUpdate : Bool) :
    jwnDecide op (jwnLevel ctx entity wantUpdate).level = .hide := by
  unfold jwnLevel
  cases hauth : ctx.auth with
  | none => rfl
  | some auth =>
    have h0 := h auth hauth
    dsimp only
    rw [if_pos h0]
    split
    · rfl
    · split
      · rfl
      · rfl

/-- A level allows what is asked exactly if RACF answers 0 to all of it. -/
theorem jwnDecide_allow (ctx : JwnCtx) (op : JwnOp) (entity : Text) :
    jwnDecide op (jwnLevel ctx entity (op = .purge)).level = .allow ↔
      ∃ auth, ctx.auth = some auth ∧ auth entity false = 0 ∧
        (op = .purge → auth entity true = 0) := by
  cases hauth : ctx.auth with
  | none => simp [jwnLevel, hauth, jwnDecide]
  | some auth =>
    by_cases h0 : auth entity false = 0
    · by_cases hop : op = .purge
      · subst hop
        by_cases h1 : auth entity true = 0
        · simp [jwnLevel, hauth, h0, h1, jwnDecide]
        · by_cases h8 : auth entity true = 8
          · simp [jwnLevel, hauth, h0, h8, jwnDecide]
          · simp [jwnLevel, hauth, h0, h1, h8, jwnDecide]
      · simp [jwnLevel, hauth, h0, hop, jwnDecide]
    · have hdenied : jwnDecide op (jwnLevel ctx entity (op = .purge)).level = .hide := by
        apply jwnDecide_denied
        intro auth' hauth'
        obtain rfl := Option.some.inj (hauth.symm.trans hauth')
        exact h0
      rw [hdenied]
      simp [h0]

/-- **Who is allowed.** The owner, and whom RACF gives the access to the entity. -/
theorem jwnCheck_allow (ctx : JwnCtx) (c : JwnCall) :
    (jwnCheck ctx none c).1.decision = .allow ↔
      ctx.aceePresent = true ∧ ctx.user ≠ [] ∧
        (jwnMine c.owner ctx.user = true ∨ ∃ auth entity, ctx.auth = some auth ∧
          c.entity = some entity ∧ auth entity false = 0 ∧ (c.op = .purge → auth entity true = 0)) := by
  unfold jwnCheck
  by_cases hacee : ctx.aceePresent = true ∧ ctx.user ≠ []
  · obtain ⟨hacee, huser⟩ := hacee
    rw [if_neg (by simp [hacee, huser])]
    by_cases hmine : jwnMine c.owner ctx.user = true
    · simp [hmine, hacee, huser]
    · rw [if_neg hmine]
      cases he : c.entity with
      | none => simp [hmine, JwnRes.closed]
      | some entity =>
        simp only [levelCached, jwnDecide_allow]
        simp [hacee, huser, hmine]
  · rw [if_pos (by simpa [or_iff_not_imp_left] using hacee)]
    refine iff_of_false (by simp [JwnRes.closed]) fun h => hacee ⟨h.1, h.2.1⟩

/-- **The cache decides nothing.** Where RACF cuts its entities, the checks of a request come out as
they do without a cache, a foreign job is allowed only where RACF answers 0 for its entity, a job
that may be purged may be listed and read, and the cache keeps to its size. -/
theorem jwnChecks_run (ctx : JwnCtx) (hcuts : ctx.Cuts) (calls : List JwnCall) :
    let run := jwnChecks ctx (some []) calls
    run.1.map JwnRes.decision = calls.map (fun c => (jwnCheck ctx none c).1.decision) ∧
    (∀ c r, (c, r) ∈ calls.zip run.1 → r.decision = .allow → jwnMine c.owner ctx.user = false →
      ∃ auth entity, ctx.auth = some auth ∧ c.entity = some entity ∧ auth entity false = 0 ∧
        (c.op = .purge → auth entity true = 0)) ∧
    (∀ c r, (c, r) ∈ calls.zip run.1 → ∀ c' r', (c', r') ∈ calls.zip run.1 →
      c.op = .purge → c'.owner = c.owner → c'.jobname = c.jobname → c'.jobid = c.jobid →
      r.decision = .allow → r'.decision = .allow) ∧
    ∀ cache, run.2 = some cache → cache.length ≤ JWN_CACHEMAX := by
  intro run
  obtain ⟨hsame, hsound⟩ := jwnChecks_spec hcuts ctx.sound_init calls
  have hzip : ∀ c r, (c, r) ∈ calls.zip run.1 →
      r.decision = (jwnCheck ctx none c).1.decision := by
    intro c r hcr
    exact ((List.forall₂_iff_zip.mp hsame).2 hcr).decision
  refine ⟨?_, ?_, ?_, hsound.fits⟩
  · symm
    rw [← List.forall₂_eq_eq_eq, List.forall₂_map_left_iff, List.forall₂_map_right_iff]
    exact hsame.imp fun c r h => h.decision.symm
  · intro c r hcr hallow hmine
    rw [hzip c r hcr, jwnCheck_allow] at hallow
    obtain ⟨-, -, hmine' | hauth⟩ := hallow
    · rw [hmine] at hmine'
      contradiction
    · exact hauth
  · intro c r hcr c' r' hcr' hpurge howner hname hid hallow
    rw [hzip c r hcr, jwnCheck_allow] at hallow
    rw [hzip c' r' hcr', jwnCheck_allow]
    obtain ⟨hacee, huser, h⟩ := hallow
    refine ⟨hacee, huser, ?_⟩
    rw [JwnCall.entity, howner, hname, hid]
    rcases h with hmine | ⟨auth, entity, hauth, he, h0, h1⟩
    · exact Or.inl hmine
    · exact Or.inr ⟨auth, entity, hauth, he, h0, fun _ => h1 hpurge⟩

/-- RACF with a profile for the jobs of `A`, and a job of another owner asked for twice. -/
theorem jwnChecks_run_twice :
    let ctx : JwnCtx := ⟨true, ['U'], some fun e _ => if e.take 2 = ['A', '.'] then 0 else 4⟩
    let call : JwnCall := ⟨.read, ['A'], ['N'], ['J', '1']⟩
    let calls : List JwnCall := [call, { call with op := .purge }, ⟨.read, ['B'], ['N'], ['J', '2']⟩]
    (jwnChecks ctx (some []) calls).1.map JwnRes.decision = [.allow, .allow, .hide] := by
  intro ctx call calls
  have hcuts : ctx.Cuts :=
    cuts_of_take (n := 2) (by decide) (fun p _ => if p = ['A', '.'] then 0 else 4) rfl
  exact (jwnChecks_run ctx hcuts calls).1.trans (by decide)

end Mvsmf
