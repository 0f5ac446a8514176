import Mvsmf.Lib.Loop
import Mvsmf.Lib.Template
import Mathlib

/-!
# Route patterns

A pattern is text with variables `{name}` and tails `{*name}` in it. `is_pattern_match` goes over
pattern and path together, a variable up to the next `/`, `(` or `)` of the path; `extract_path_vars`
goes over them once more and lets a variable run to the next of these that the pattern has. Names and
values pass through buffers of fixed size, and end in the environment that httpd keeps of a request.
-/

namespace Mvsmf

open Template

/-! ## The two scanners -/

/-- What ends a variable. -/
def isPathStop (c : Char) : Bool := c == '/' || c == '(' || c == ')'

/-- The pattern behind the `}` of a variable. -/
def behindVar (pattern : List Char) : List Char := (pattern.dropWhile (· != '}')).drop 1

theorem behindVar_length (pattern : List Char) : (behindVar pattern).length ≤ pattern.length := by
  have hdrop := (List.dropWhile_suffix (· != '}') (l := pattern)).length_le
  rw [behindVar, List.length_drop]
  omega

/-- One turn over pattern and path; none for a character that differs. -/
def matchStep : List Char × List Char →
    (List Char × List Char) ⊕ Option (List Char × List Char)
  | (a :: pattern, c :: path) =>
    if a = '{' then
      if pattern.head? = some '*' then .inl (behindVar pattern, [])
      else .inl (behindVar pattern, (c :: path).dropWhile (!isPathStop ·))
    else if a = c then .inl (pattern, path)
    else .inr none
  | s => .inr (some s)

theorem matchStep_lowers {s s' : List Char × List Char} (h : matchStep s = .inl s') :
    s'.1.length < s.1.length := by
  unfold matchStep at h
  split at h
  · next a pattern c path =>
    have hbehind := behindVar_length pattern
    split at h
    · split at h
      · cases h
        exact Nat.lt_succ_of_le hbehind
      · cases h
        exact Nat.lt_succ_of_le hbehind
    · split at h
      · cases h
        exact Nat.lt_succ_self _
      · cases h
  · cases h

def matchLoop : Loop (List Char × List Char) (Option (List Char × List Char)) where
  step := matchStep
  measure s := s.1.length
  lowers := matchStep_lowers

/-- A trailing tail matches the end of the path. -/
def tailStep : List Char → List Char ⊕ List Char
  | '{' :: '*' :: pattern => .inl (behindVar pattern)
  | pattern => .inr pattern

theorem tailStep_lowers {p p' : List Char} (h : tailStep p = .inl p') : p'.length < p.length := by
  unfold tailStep at h
  split at h
  · next pattern =>
    cases h
    have hbehind := behindVar_length pattern
    simp only [List.length_cons]
    omega
  · cases h

def tailLoop : Loop (List Char) (List Char) where
  step := tailStep
  measure := List.length
  lowers := tailStep_lowers

theorem matchLoop_step (s : List Char × List Char) : matchLoop.step s = matchStep s := rfl

def isPatternMatch (pattern path : List Char) : Bool :=
  match matchLoop.exec (pattern, path) with
  | none => false
  | some (pattern, path) => tailLoop.exec pattern == [] && path == []

/-- Trailing blanks of a value are cut off. -/
def trimValue (value : List Char) : List Char := value.rdropWhile (· == ' ')

/-- The calls of `http_set_env`. -/
abbrev PathVars := List (List Char × List Char)

/-- The buffers `var_name[256]`, `value[1024]` and `env_name[256]` hold a name and a value, with a NUL
behind each. -/
def varFits (name value : List Char) : Bool :=
  name.length < 256 && value.length < 1024 && ("HTTP_".toList ++ name).length < 256

/-- One turn of `extract_path_vars`: the pattern, the path and what has been set; none where a buffer is
overrun. -/
def extractStep : List Char × List Char × PathVars →
    (List Char × List Char × PathVars) ⊕ Option PathVars
  | ([], _, vars) => .inr (some vars)
  | (a :: pattern, path, vars) =>
    if a = '{' then
      let wildcard := pattern.head? == some '*'
      let varStart := if wildcard then pattern.tail else pattern
      let varName := varStart.takeWhile (· != '}')
      let pattern := behindVar varStart
      let patternNext := (pattern.dropWhile (!isPathStop ·)).head?
      let value := if wildcard then path else path.takeWhile (patternNext != some ·)
      let path := if wildcard then [] else path.dropWhile (patternNext != some ·)
      if varFits varName value then
        .inl (pattern, path, vars ++ [("HTTP_".toList ++ varName, trimValue value)])
      else .inr none
    else
      match path with
      | [] => .inr (some vars)
      | c :: path => if a = c then .inl (pattern, path, vars) else .inr (some vars)

/-- A turn at a variable goes on behind its name and its value. -/
theorem extractStep_var (pattern path : List Char) (vars : PathVars) :
    ∃ name value behind rest : List Char, name.length ≤ pattern.length ∧
      value.length ≤ path.length ∧ behind.length ≤ pattern.length ∧ rest.length ≤ path.length ∧
      extractStep ('{' :: pattern, path, vars) =
        if varFits name value then
          .inl (behind, rest, vars ++ [("HTTP_".toList ++ name, trimValue value)])
        else .inr none := by
  let wildcard := pattern.head? == some '*'
  let varStart := if wildcard then pattern.tail else pattern
  let patternNext := ((behindVar varStart).dropWhile (!isPathStop ·)).head?
  have hstart : varStart.length ≤ pattern.length := by
    dsimp only [varStart]
    split
    · rw [List.length_tail]
      exact Nat.sub_le _ _
    · exact Nat.le_refl _
  refine ⟨varStart.takeWhile (· != '}'),
    if wildcard then path else path.takeWhile (patternNext != some ·), behindVar varStart,
    if wildcard then [] else path.dropWhile (patternNext != some ·), ?_, ?_, ?_, ?_, ?_⟩
  · exact (List.takeWhile_prefix _).length_le.trans hstart
  · split
    · exact Nat.le_refl _
    · exact (List.takeWhile_prefix _).length_le
  · exact (behindVar_length _).trans hstart
  · split
    · exact Nat.zero_le _
    · exact (List.dropWhile_suffix _).length_le
  · rw [extractStep.eq_def]
    exact if_pos rfl

/-- A turn shortens the pattern, and the path does not grow. -/
theorem extractStep_shortens {s s' : List Char × List Char × PathVars}
    (h : extractStep s = .inl s') : s'.1.length < s.1.length ∧ s'.2.1.length ≤ s.2.1.length := by
  obtain ⟨pattern, path, vars⟩ := s
  cases pattern with
  | nil => cases h
  | cons a pattern =>
    by_cases ha : a = '{'
    · subst ha
      obtain ⟨name, value, behind, rest, -, -, hbehind, hrest, hstep⟩ :=
        extractStep_var pattern path vars
      rw [hstep] at h
      split at h
      · cases h
        exact ⟨Nat.lt_succ_of_le hbehind, hrest⟩
      · cases h
    · rw [extractStep.eq_def] at h
      dsimp only at h
      rw [if_neg ha] at h
      cases path with
      | nil => cases h
      | cons c path =>
        dsimp only at h
        split at h
        · cases h
          exact ⟨Nat.lt_succ_self _, Nat.le_succ _⟩
        · cases h

def extractLoop : Loop (List Char × List Char × PathVars) (Option PathVars) where
  step := extractStep
  measure s := s.1.length
  lowers h := (extractStep_shortens h).1

theorem extractLoop_step (s : List Char × List Char × PathVars) :
    extractLoop.step s = extractStep s := rfl

/-- What is set, none where a buffer is overrun. -/
def extractPathVars (pattern path : List Char) : Option PathVars :=
  extractLoop.exec (pattern, path, [])

example : extractPathVars "/ds/{dsn}({mem})".toList "/ds/A.B(X   )".toList =
    some [("HTTP_dsn".toList, "A.B".toList), ("HTTP_mem".toList, "X".toList)] := by
  decide +kernel

theorem varFits_iff {name value : List Char} :
    varFits name value = true ↔ name.length ≤ 250 ∧ value.length < 1024 := by
  have hprefix : "HTTP_".toList.length = 5 := rfl
  simp only [varFits, Bool.and_eq_true, decide_eq_true_eq, List.length_append, hprefix]
  omega

/-- Where names and values are short the turns end with what was set. -/
theorem extractStep_leaves {pattern path : List Char} {vars : PathVars} {r : Option PathVars}
    (hpattern : pattern.length ≤ 250) (hpath : path.length < 1024)
    (h : extractStep (pattern, path, vars) = .inr r) : ∃ vars, r = some vars := by
  cases pattern with
  | nil =>
    cases h
    exact ⟨_, rfl⟩
  | cons a pattern =>
    by_cases ha : a = '{'
    · subst ha
      obtain ⟨name, value, behind, rest, hname, hvalue, -, -, hstep⟩ :=
        extractStep_var pattern path vars
      rw [List.length_cons] at hpattern
      have hfits : varFits name value = true :=
        varFits_iff.mpr ⟨hname.trans (by omega), hvalue.trans_lt hpath⟩
      rw [hstep, if_pos hfits] at h
      cases h
    · rw [extractStep.eq_def] at h
      dsimp only at h
      rw [if_neg ha] at h
      cases path with
      | nil =>
        cases h
        exact ⟨_, rfl⟩
      | cons c path =>
        dsimp only at h
        split at h
        · cases h
        · cases h
          exact ⟨_, rfl⟩

/-- A short pattern and a path that is cut as `handle_request` cuts it overrun nothing. -/
theorem extractPathVars_fits {pattern path : List Char} (hpattern : pattern.length ≤ 250)
    (hpath : path.length < 1024) : ∃ vars, extractPathVars pattern path = some vars := by
  let Short (s : List Char × List Char × PathVars) : Prop := s.1.length ≤ 250 ∧ s.2.1.length < 1024
  refine extractLoop.invariant (I := Short) (Q := fun r => ∃ vars, r = some vars) ?_ ?_
    (s := (pattern, path, [])) ⟨hpattern, hpath⟩
  · rintro ⟨p, t, vars⟩ s' ⟨hp, ht⟩ hstep
    obtain ⟨hshort, hrest⟩ := extractStep_shortens hstep
    exact ⟨hshort.le.trans hp, hrest.trans_lt ht⟩
  · rintro ⟨p, t, vars⟩ r ⟨hp, ht⟩ hstep
    exact extractStep_leaves hp ht hstep

/-! ## The environment -/

/-- The environment that httpd keeps of a request, as `http_set_env` and `http_get_env` show it. -/
structure HttpEnv (E : Type) where
  setEnv : E → List Char → List Char → E
  getEnv : E → List Char → Option (List Char)

/-- Names are looked up without regard to case. -/
def SameName (n m : List Char) : Prop := n.map Char.toUpper = m.map Char.toUpper

instance (n m : List Char) : Decidable (SameName n m) :=
  inferInstanceAs (Decidable (n.map Char.toUpper = m.map Char.toUpper))

namespace HttpEnv

variable {E : Type} (httpd : HttpEnv E)

/-- A name has the value that was set last, and other names keep theirs. -/
structure Keeps : Prop where
  get_set : ∀ {env n m v}, SameName n m → httpd.getEnv (httpd.setEnv env n v) m = some v
  get_other : ∀ {env n m v}, ¬ SameName n m →
    httpd.getEnv (httpd.setEnv env n v) m = httpd.getEnv env m

/-- The environment behind the calls of `extract_path_vars`. -/
def setVars (env : E) (vars : PathVars) : E :=
  vars.foldl (fun env nv => httpd.setEnv env nv.1 nv.2) env

variable {httpd}

theorem getEnv_setVars_other (hkeeps : httpd.Keeps) {vars : PathVars} {m : List Char} {env : E}
    (h : ∀ nv ∈ vars, ¬ SameName nv.1 m) :
    httpd.getEnv (httpd.setVars env vars) m = httpd.getEnv env m := by
  induction vars generalizing env with
  | nil => rfl
  | cons nv vars ih =>
    obtain ⟨hnv, hvars⟩ := List.forall_mem_cons.mp h
    exact (ih hvars).trans (hkeeps.get_other hnv)

/-- With names that differ in more than their case, each has its value. -/
theorem getEnv_setVars (hkeeps : httpd.Keeps) {vars : PathVars} {env : E}
    (hvars : vars.Pairwise fun nv mv => ¬ SameName nv.1 mv.1) {n v : List Char}
    (h : (n, v) ∈ vars) : httpd.getEnv (httpd.setVars env vars) n = some v := by
  induction vars generalizing env with
  | nil => cases h
  | cons nv vars ih =>
    obtain ⟨hfirst, hvars⟩ := List.pairwise_cons.mp hvars
    rcases List.mem_cons.mp h with rfl | h
    · have hothers : ∀ mv ∈ vars, ¬ SameName mv.1 n := fun mv hmv hsame => hfirst mv hmv hsame.symm
      exact (getEnv_setVars_other hkeeps hothers).trans (hkeeps.get_set rfl)
    · exact ih hvars h

end HttpEnv

/-! ## Patterns as templates -/

abbrev RoutePiece := Piece Char (List Char)

def RoutePiece.text : RoutePiece → List Char
  | .lit c => [c]
  | .var name => '{' :: (name ++ ['}'])
  | .rest name => '{' :: '*' :: (name ++ ['}'])

/-- A name without the characters of the pattern language in it. -/
def isVarName (name : List Char) : Bool :=
  name.all (fun c => c != '}' && !isPathStop c) && name.head? != some '*'

def RoutePiece.ok : RoutePiece → Bool
  | .lit c => c != '{'
  | .var name => isVarName name
  | .rest name => isVarName name

def patternText (ps : List RoutePiece) : List Char := ps.flatMap RoutePiece.text

/-- A pattern of literals, variables and tails. -/
structure RoutePattern where
  pieces : List RoutePiece
  ok : pieces.all RoutePiece.ok = true

def RoutePattern.text (r : RoutePattern) : List Char := patternText r.pieces

theorem isVarName_iff {name : List Char} : isVarName name = true ↔
    (∀ c ∈ name, c ≠ '}' ∧ isPathStop c = false) ∧ name.head? ≠ some '*' := by
  simp [isVarName]

theorem behindVar_name {name : List Char} (h : isVarName name = true) (t : List Char) :
    behindVar (name ++ '}' :: t) = t ∧ (name ++ '}' :: t).takeWhile (· != '}') = name := by
  have hname : ∀ c ∈ name, (c != '}') = true := by
    intro c hc
    simpa using ((isVarName_iff.mp h).1 c hc).1
  constructor
  · rw [behindVar, List.dropWhile_append_of_pos hname]
    rfl
  · rw [List.takeWhile_append_of_pos hname]
    simp

theorem head_name {name : List Char} (h : isVarName name = true) (t : List Char) :
    (name ++ '}' :: t).head? ≠ some '*' := by
  cases name with
  | nil => simp
  | cons c name => exact (isVarName_iff.mp h).2

theorem text_lit (c : Char) (ps : List RoutePiece) :
    patternText (.lit c :: ps) = c :: patternText ps := rfl

theorem text_var (name : List Char) (ps : List RoutePiece) :
    patternText (.var name :: ps) = '{' :: (name ++ '}' :: patternText ps) := by
  simp [patternText, RoutePiece.text]

theorem text_rest (name : List Char) (ps : List RoutePiece) :
    patternText (.rest name :: ps) = '{' :: '*' :: (name ++ '}' :: patternText ps) := by
  simp [patternText, RoutePiece.text]

/-! ## The matcher -/

/-- At the end of the path, tails may be left. -/
theorem tailLoop_text {ps : List RoutePiece} (hok : ps.all RoutePiece.ok = true) :
    (tailLoop.exec (patternText ps) == []) = (spans isPathStop ps []).isSome := by
  induction ps with
  | nil => rfl
  | cons p ps ih =>
    obtain ⟨hp, hps⟩ := Bool.and_eq_true_iff.mp hok
    cases p with
    | lit c =>
      have hc : c ≠ '{' := by simpa [RoutePiece.ok] using hp
      have hstep : tailLoop.step (c :: patternText ps) = .inr (c :: patternText ps) := by
        change tailStep _ = _
        rw [tailStep]
        rintro t ht
        exact hc (List.cons.inj ht).1
      rw [text_lit, Loop.exec_done _ hstep]
      rfl
    | var name =>
      have hstep : tailLoop.step ('{' :: (name ++ '}' :: patternText ps)) =
          .inr ('{' :: (name ++ '}' :: patternText ps)) := by
        change tailStep _ = _
        rw [tailStep]
        rintro t ht
        exact head_name hp _ (congrArg List.head? (List.cons.inj ht).2)
      rw [text_var, Loop.exec_done _ hstep]
      rfl
    | rest name =>
      have hstep : tailLoop.step ('{' :: '*' :: (name ++ '}' :: patternText ps)) =
          .inl (patternText ps) :=
        congrArg Sum.inl (behindVar_name hp _).1
      rw [text_rest, Loop.exec_next _ hstep, ih hps, spans, Option.isSome_map]

/-- `is_pattern_match` accepts what the template does. -/
theorem isPatternMatch_text {ps : List RoutePiece} (hok : ps.all RoutePiece.ok = true)
    (path : List Char) :
    isPatternMatch (patternText ps) path = (spans isPathStop ps path).isSome := by
  induction ps generalizing path with
  | nil => cases path <;> rfl
  | cons p ps ih =>
    cases path with
    | nil =>
      have hstep : matchLoop.step (patternText (p :: ps), []) =
          .inr (some (patternText (p :: ps), [])) := by
        change matchStep _ = _
        cases patternText (p :: ps) with
        | nil => rfl
        | cons a t => rfl
      rw [isPatternMatch, Loop.exec_done _ hstep, ← tailLoop_text hok]
      exact Bool.and_true _
    | cons c path =>
      obtain ⟨hp, hps⟩ := Bool.and_eq_true_iff.mp hok
      have hturn {t : List Char}
          (h : matchStep (patternText (p :: ps), c :: path) = .inl (patternText ps, t)) :
          isPatternMatch (patternText (p :: ps)) (c :: path) =
            (spans isPathStop ps t).isSome := by
        rw [← ih hps, isPatternMatch, isPatternMatch, matchLoop.exec_next h]
      cases p with
      | lit a =>
        have ha : a ≠ '{' := by simpa [RoutePiece.ok] using hp
        by_cases hac : a = c
        · rw [hturn (t := path), spans, if_pos hac]
          rw [text_lit, matchStep, if_neg ha, if_pos hac]
        · have hstep : matchLoop.step (patternText (.lit a :: ps), c :: path) = .inr none := by
            rw [matchLoop_step, text_lit, matchStep, if_neg ha, if_neg hac]
          rw [isPatternMatch, matchLoop.exec_done hstep, spans, if_neg hac]
          rfl
      | var name =>
        rw [hturn (t := (c :: path).dropWhile (!isPathStop ·)), spans, Option.isSome_map]
        rw [text_var, matchStep, if_pos rfl, if_neg (head_name hp _), (behindVar_name hp _).1]
      | rest name =>
        rw [hturn (t := []), spans, Option.isSome_map]
        rw [text_rest, matchStep, if_pos rfl, List.head?_cons, if_pos rfl]
        exact congrArg (fun t => Sum.inl (t, [])) (behindVar_name hp _).1

/-! ## The binder -/

theorem dropWhile_stop {x : List Char} (hx : ∀ c ∈ x, isPathStop c = false) (t : List Char) :
    (x ++ t).dropWhile (!isPathStop ·) = t.dropWhile (!isPathStop ·) :=
  List.dropWhile_append_of_pos fun c hc => by simp [hx c hc]

/-- The next stop of a pattern is no part of a name. -/
theorem patternNext_eq {ps : List RoutePiece} (hok : ps.all RoutePiece.ok = true) :
    ((patternText ps).dropWhile (!isPathStop ·)).head? = nextStop isPathStop ps := by
  induction ps with
  | nil => rfl
  | cons p ps ih =>
    obtain ⟨hp, hps⟩ := Bool.and_eq_true_iff.mp hok
    cases p with
    | lit a =>
      rw [text_lit, nextStop]
      split
      · next ha => rw [List.dropWhile_cons_of_neg (by simp [ha]), List.head?_cons]
      · next ha => rw [List.dropWhile_cons_of_pos (by simpa using ha), ih hps]
    | var name =>
      have hname : ∀ c ∈ '{' :: (name ++ ['}']), isPathStop c = false := by
        intro c hc
        simp only [List.mem_cons, List.mem_append, List.not_mem_nil, or_false] at hc
        rcases hc with rfl | hc | rfl
        · rfl
        · exact ((isVarName_iff.mp hp).1 c hc).2
        · rfl
      have hskip := dropWhile_stop hname (patternText ps)
      rw [nextStop, ← ih hps, ← hskip]
      rfl
    | rest name =>
      have hname : ∀ c ∈ '{' :: '*' :: (name ++ ['}']), isPathStop c = false := by
        intro c hc
        simp only [List.mem_cons, List.mem_append, List.not_mem_nil, or_false] at hc
        rcases hc with rfl | rfl | hc | rfl
        · rfl
        · rfl
        · exact ((isVarName_iff.mp hp).1 c hc).2
        · rfl
      have hskip := dropWhile_stop hname (patternText ps)
      rw [nextStop, ← ih hps, ← hskip]
      rfl

/-- The names as they are set. -/
def envNames (ps : List RoutePiece) : List (List Char) :=
  (names ps).map fun name => "HTTP_".toList ++ name

theorem extractLoop_text {ps : List RoutePiece} (hok : ps.all RoutePiece.ok = true)
    (hnames : ∀ name ∈ names ps, name.length ≤ 250) {path : List Char} (hpath : path.length < 1024)
    {ws : List (List Char)} (h : binds isPathStop ps path = some ws) (vars : PathVars) :
    extractLoop.exec (patternText ps, path, vars) =
      some (vars ++ (envNames ps).zip (ws.map trimValue)) := by
  induction ps generalizing path ws vars with
  | nil =>
    cases h
    rw [extractLoop.exec_done (r := some vars) rfl]
    exact congrArg some (List.append_nil vars).symm
  | cons p ps ih =>
    obtain ⟨hp, hps⟩ := Bool.and_eq_true_iff.mp hok
    cases p with
    | lit a =>
      have ha : a ≠ '{' := by simpa [RoutePiece.ok] using hp
      cases path with
      | nil => cases h
      | cons c path =>
        obtain ⟨hac, hrest⟩ := Option.ite_none_right_eq_some.mp h
        have hstep : extractLoop.step (patternText (.lit a :: ps), c :: path, vars) =
            .inl (patternText ps, path, vars) := by
          rw [extractLoop_step, text_lit, extractStep, if_neg ha]
          exact if_pos hac
        rw [extractLoop.exec_next hstep, ih hps hnames ((Nat.lt_succ_self _).trans hpath) hrest]
        rfl
    | var name =>
      obtain ⟨ws', hrest, rfl⟩ := Option.map_eq_some_iff.mp h
      obtain ⟨hname, hnames⟩ := List.forall_mem_cons.mp hnames
      have hstar : ((name ++ '}' :: patternText ps).head? == some '*') = false := by
        simpa using head_name hp (patternText ps)
      have hvalue := (List.takeWhile_prefix (before isPathStop ps) (l := path)).length_le
      have hbehind := (List.dropWhile_suffix (before isPathStop ps) (l := path)).length_le
      have hfits : varFits name (path.takeWhile (before isPathStop ps)) = true :=
        varFits_iff.mpr ⟨hname, hvalue.trans_lt hpath⟩
      have hstep : extractLoop.step (patternText (.var name :: ps), path, vars) =
          .inl (patternText ps, path.dropWhile (before isPathStop ps), vars ++
            [("HTTP_".toList ++ name, trimValue (path.takeWhile (before isPathStop ps)))]) := by
        rw [extractLoop_step, text_var, extractStep.eq_def]
        simp only [if_true, hstar, Bool.false_eq_true, if_false, behindVar_name hp,
          patternNext_eq hps]
        exact if_pos hfits
      rw [extractLoop.exec_next hstep, ih hps hnames (hbehind.trans_lt hpath) hrest,
        List.append_assoc]
      rfl
    | rest name =>
      obtain ⟨ws', hrest, rfl⟩ := Option.map_eq_some_iff.mp h
      obtain ⟨hname, hnames⟩ := List.forall_mem_cons.mp hnames
      have hfits : varFits name path = true := varFits_iff.mpr ⟨hname, hpath⟩
      have hstep : extractLoop.step (patternText (.rest name :: ps), path, vars) =
          .inl (patternText ps, [], vars ++ [("HTTP_".toList ++ name, trimValue path)]) := by
        rw [extractLoop_step, text_rest, extractStep.eq_def]
        simp only [if_true, List.head?_cons, beq_self_eq_true, List.tail_cons, behindVar_name hp]
        exact if_pos hfits
      rw [extractLoop.exec_next hstep, ih hps hnames (by decide) hrest, List.append_assoc]
      rfl

theorem sameName_http {n m : List Char} :
    SameName ("HTTP_".toList ++ n) ("HTTP_".toList ++ m) ↔ SameName n m := by
  rw [SameName, List.map_append, List.map_append]
  exact List.append_right_inj _

/-- **Matcher and binder.** Where the matcher succeeds on a path of the length that `handle_request`
hands on, the binder sets every variable of the pattern, to what fills the pattern to the path, trailing
blanks of each value apart. If no variable stands right in front of a tail, each value is what the
matcher took; and if the names differ in more than their case, each has its value in an environment that
keeps what is set. -/
theorem extractPathVars_match (r : RoutePattern) (path : List Char)
    (h : isPatternMatch r.text path = true) (hpath : path.length < 1024)
    (hnames : ∀ name ∈ names r.pieces, name.length ≤ 250) :
    ∃ ws, ws.length = (names r.pieces).length ∧ fillIn r.pieces ws = path ∧
      extractPathVars r.text path = some ((envNames r.pieces).zip (ws.map trimValue)) ∧
      (Separated r.pieces → spans isPathStop r.pieces path = some ws) ∧
      ((names r.pieces).Pairwise (¬ SameName · ·) →
        ∀ {E : Type} (httpd : HttpEnv E) (env : E), httpd.Keeps →
          ∀ nw ∈ (names r.pieces).zip ws,
            httpd.getEnv (httpd.setVars env ((envNames r.pieces).zip (ws.map trimValue)))
              ("HTTP_".toList ++ nw.1) = some (trimValue nw.2)) := by
  rw [RoutePattern.text, isPatternMatch_text r.ok] at h
  obtain ⟨vs, hvs⟩ := Option.isSome_iff_exists.mp h
  obtain ⟨ws, hws, hfill, hsame⟩ := binds_of_spans hvs
  have hlen := length_binds hws
  have hset : extractPathVars r.text path = some ((envNames r.pieces).zip (ws.map trimValue)) := by
    rw [extractPathVars, RoutePattern.text, extractLoop_text r.ok hnames hpath hws, List.nil_append]
  refine ⟨ws, hlen, hfill, hset, fun hsep => by rw [hsame hsep, hvs], ?_⟩
  intro hapart E httpd env hkeeps nw hnw
  apply HttpEnv.getEnv_setVars hkeeps
  · have hkeys : (((envNames r.pieces).zip (ws.map trimValue)).map Prod.fst) = envNames r.pieces :=
      List.map_fst_zip (by simp [envNames, hlen])
    rw [← List.pairwise_map (f := Prod.fst) (R := fun n m => ¬ SameName n m), hkeys, envNames,
      List.pairwise_map]
    exact hapart.imp fun hne hsame => hne (sameName_http.mp hsame)
  · rw [envNames, List.zip_map]
    exact List.mem_map.mpr ⟨nw, hnw, rfl⟩

/-- An environment that is a list of what was set, the last in front. -/
def listedEnv : HttpEnv PathVars where
  setEnv env n v := (n, v) :: env
  getEnv env m := (env.find? fun nv => decide (SameName nv.1 m)).map Prod.snd

theorem listedEnv_keeps : listedEnv.Keeps where
  get_set h := by simp [listedEnv, h]
  get_other h := by simp [listedEnv, h]

/-- The pattern of a member. -/
def memberPattern : RoutePattern where
  pieces := [.lit '/', .var "dsn".toList, .lit '(', .var "mem".toList, .lit ')']
  ok := by decide

theorem extractPathVars_match_member :
    ∃ ws : List (List Char), ws.length = (names memberPattern.pieces).length ∧
      fillIn memberPattern.pieces ws = "/A.B(X )".toList ∧
      extractPathVars memberPattern.text "/A.B(X )".toList =
        some ((envNames memberPattern.pieces).zip (ws.map trimValue)) ∧
      spans isPathStop memberPattern.pieces "/A.B(X )".toList = some ws ∧
      ∀ nw ∈ (names memberPattern.pieces).zip ws,
        listedEnv.getEnv
          (listedEnv.setVars [] ((envNames memberPattern.pieces).zip (ws.map trimValue)))
          ("HTTP_".toList ++ nw.1) = some (trimValue nw.2) := by
  obtain ⟨ws, hlen, hfill, hset, hspans, henv⟩ :=
    extractPathVars_match memberPattern "/A.B(X )".toList (by decide +kernel) (by decide) (by decide)
  exact ⟨ws, hlen, hfill, hset, hspans (by unfold Separated; decide),
    henv (by decide) listedEnv [] listedEnv_keeps⟩

/-- Two names that differ in their case only. -/
def casePattern : RoutePattern where
  pieces := [.lit '/', .var ['a'], .lit '/', .var ['A']]
  ok := by decide

def tailPattern : RoutePattern where
  pieces := [.lit '/', .var ['a'], .rest ['b']]
  ok := by decide

/-- A name for which `env_name` is a byte too short. -/
def longNamePattern : RoutePattern where
  pieces := [.lit '/', .var (List.replicate 251 'a')]
  ok := by decide +kernel

/-- Names that differ in their case only have one value, a variable right in front of a tail takes what
the matcher leaves to the tail, and a name of 251 characters overruns its buffer. -/
theorem extractPathVars_disagrees :
    (¬ ∀ (r : RoutePattern) (path : List Char), isPatternMatch r.text path = true →
      path.length < 1024 → (names r.pieces).Nodup →
      ∃ ws vars, ws.length = (names r.pieces).length ∧ fillIn r.pieces ws = path ∧
        extractPathVars r.text path = some vars ∧
        ∀ nw ∈ (names r.pieces).zip ws,
          listedEnv.getEnv (listedEnv.setVars [] vars) ("HTTP_".toList ++ nw.1) =
            some (trimValue nw.2)) ∧
    (¬ ∀ (r : RoutePattern) (path : List Char), isPatternMatch r.text path = true →
      path.length < 1024 →
      ∃ vs, spans isPathStop r.pieces path = some vs ∧
        extractPathVars r.text path = some ((envNames r.pieces).zip (vs.map trimValue))) ∧
    ¬ ∀ (r : RoutePattern) (path : List Char), isPatternMatch r.text path = true →
      path.length < 1024 → ∃ vars, extractPathVars r.text path = some vars := by
  refine ⟨fun h => ?_, fun h => ?_, fun h => ?_⟩
  · obtain ⟨ws, vars, hlen, hfill, hset, hbound⟩ :=
      h casePattern "/x/y".toList (by decide +kernel) (by decide) (by decide)
    obtain ⟨w, w', rfl⟩ := List.length_eq_two.mp hlen
    have hvars : extractPathVars casePattern.text "/x/y".toList =
        some [("HTTP_a".toList, ['x']), ("HTTP_A".toList, ['y'])] := by
      decide +kernel
    cases hset.symm.trans hvars
    have hget : listedEnv.getEnv (listedEnv.setVars []
        [("HTTP_a".toList, ['x']), ("HTTP_A".toList, ['y'])]) ("HTTP_".toList ++ ['a']) =
          some ['y'] := by
      decide +kernel
    have hw : trimValue w = ['y'] :=
      Option.some.inj ((hbound (['a'], w) List.mem_cons_self).symm.trans hget)
    obtain ⟨blanks, rfl⟩ : ['y'] <+: w := hw ▸ List.rdropWhile_prefix _ w
    have hone : some 'y' = some 'x' := congrArg (·[1]?) hfill
    exact absurd hone (by decide)
  · obtain ⟨vs, hvs, hset⟩ := h tailPattern "/x/y".toList (by decide +kernel) (by decide)
    have hspans : spans isPathStop tailPattern.pieces "/x/y".toList =
        some [['x'], ['/', 'y']] := by
      decide +kernel
    obtain rfl := Option.some.inj (hspans.symm.trans hvs)
    revert hset
    decide +kernel
  · obtain ⟨vars, hset⟩ := h longNamePattern "/x".toList (by decide +kernel) (by decide)
    have hover : extractPathVars longNamePattern.text "/x".toList = none := by
      decide +kernel
    exact Option.some_ne_none _ (hset.symm.trans hover)

end Mvsmf
