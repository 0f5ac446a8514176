import Mathlib

/-!
# Templates with greedy variables

A template is a list of literals, of variables that take everything up to the next stop, and of tails
that take all that is left. `spans` is what each of them takes. A second reader lets a variable run
to the next literal stop of the template; on what `spans` accepts it fills the template to the same
text, and takes the same parts unless a variable stands right in front of a tail. Two templates that
`meets` tells apart accept no text in common.
-/

universe u v

namespace Template

inductive Piece (α : Type u) (ν : Type v)
  | lit (a : α)
  | var (n : ν)
  | rest (n : ν)
  deriving DecidableEq

variable {α : Type u} {ν : Type v}

def Piece.isVar : Piece α ν → Bool
  | .var _ => true
  | _ => false

def Piece.isRest : Piece α ν → Bool
  | .rest _ => true
  | _ => false

/-- The variables and tails in their order. -/
def names : List (Piece α ν) → List ν
  | [] => []
  | .lit _ :: ps => names ps
  | .var n :: ps => n :: names ps
  | .rest n :: ps => n :: names ps

/-- The text that values make of a template. -/
def fillIn : List (Piece α ν) → List (List α) → List α
  | [], _ => []
  | .lit a :: ps, vs => a :: fillIn ps vs
  | .var _ :: ps, v :: vs => v ++ fillIn ps vs
  | .rest _ :: ps, v :: vs => v ++ fillIn ps vs
  | .var _ :: ps, [] => fillIn ps []
  | .rest _ :: ps, [] => fillIn ps []

/-- No variable stands right in front of a tail. -/
def Separated (ps : List (Piece α ν)) : Prop :=
  ps.IsChain fun p q => ¬ (p.isVar = true ∧ q.isRest = true)

variable [DecidableEq α] (stop : α → Bool)

/-- What the variables and tails take of a text, none if the template does not accept it. A variable
has to have some text in front of it. -/
def spans : List (Piece α ν) → List α → Option (List (List α))
  | [], [] => some []
  | [], _ :: _ => none
  | .lit _ :: _, [] => none
  | .lit a :: ps, b :: t => if a = b then spans ps t else none
  | .var _ :: _, [] => none
  | .var _ :: ps, b :: t =>
    (spans ps ((b :: t).dropWhile (!stop ·))).map ((b :: t).takeWhile (!stop ·) :: ·)
  | .rest _ :: ps, t => (spans ps []).map (t :: ·)

/-- The first stop among the literals. -/
def nextStop : List (Piece α ν) → Option α
  | [] => none
  | .lit a :: ps => if stop a then some a else nextStop ps
  | .var _ :: ps => nextStop ps
  | .rest _ :: ps => nextStop ps

/-- What is not the next stop of the template. -/
def before (ps : List (Piece α ν)) (b : α) : Bool := nextStop stop ps != some b

/-- The reader that goes to the next stop of the template. -/
def binds : List (Piece α ν) → List α → Option (List (List α))
  | [], _ => some []
  | .lit _ :: _, [] => none
  | .lit a :: ps, b :: t => if a = b then binds ps t else none
  | .var _ :: ps, t =>
    (binds ps (t.dropWhile (before stop ps))).map (t.takeWhile (before stop ps) :: ·)
  | .rest _ :: ps, t => (binds ps []).map (t :: ·)

section

variable {stop}
variable {ps : List (Piece α ν)}

theorem fillIn_spans {t : List α} {vs : List (List α)} (h : spans stop ps t = some vs) :
    fillIn ps vs = t := by
  induction ps generalizing t vs with
  | nil =>
    cases t with
    | nil =>
      cases h
      rfl
    | cons b t => cases h
  | cons p ps ih =>
    cases p with
    | lit a =>
      cases t with
      | nil => cases h
      | cons b t =>
        obtain ⟨rfl, hps⟩ := Option.ite_none_right_eq_some.mp h
        rw [fillIn, ih hps]
    | var n =>
      cases t with
      | nil => cases h
      | cons b t =>
        obtain ⟨vs', hps, rfl⟩ := Option.map_eq_some_iff.mp h
        rw [fillIn, ih hps, List.takeWhile_append_dropWhile]
    | rest n =>
      obtain ⟨vs', hps, rfl⟩ := Option.map_eq_some_iff.mp h
      rw [fillIn, ih hps, List.append_nil]

/-! ## The second reader -/

theorem length_binds {t : List α} {ws : List (List α)} (h : binds stop ps t = some ws) :
    ws.length = (names ps).length := by
  induction ps generalizing t ws with
  | nil =>
    cases h
    rfl
  | cons p ps ih =>
    cases p with
    | lit a =>
      cases t with
      | nil => cases h
      | cons b t =>
        obtain ⟨-, hps⟩ := Option.ite_none_right_eq_some.mp h
        exact ih hps
    | var n =>
      obtain ⟨ws', hps, rfl⟩ := Option.map_eq_some_iff.mp h
      simp [names, ih hps]
    | rest n =>
      obtain ⟨ws', hps, rfl⟩ := Option.map_eq_some_iff.mp h
      simp [names, ih hps]

/-- A template that accepts the end is tails only. -/
theorem binds_nil {vs : List (List α)} (h : spans stop ps [] = some vs) :
    binds stop ps [] = some vs ∧ nextStop stop ps = none := by
  induction ps generalizing vs with
  | nil => exact ⟨h, rfl⟩
  | cons p ps ih =>
    cases p with
    | lit a => cases h
    | var n => cases h
    | rest n =>
      obtain ⟨vs', hps, rfl⟩ := Option.map_eq_some_iff.mp h
      obtain ⟨hbinds, hnext⟩ := ih hps
      refine ⟨?_, hnext⟩
      rw [binds, hbinds]
      rfl

omit [DecidableEq α] in
theorem stop_of_nextStop {d : α} (h : nextStop stop ps = some d) : stop d = true := by
  induction ps with
  | nil => cases h
  | cons p ps ih =>
    cases p with
    | lit a =>
      rw [nextStop] at h
      split at h
      · next ha =>
        cases h
        exact ha
      · exact ih h
    | var n => exact ih h
    | rest n => exact ih h

/-- At a stop, variables take nothing; the next stop of the template is this one, or there is a tail
to take it. -/
theorem spans_stop {d : α} (hd : stop d = true) {t : List α} {vs : List (List α)}
    (h : spans stop ps (d :: t) = some vs) :
    nextStop stop ps = some d ∨
      nextStop stop ps = none ∧ (∃ ws, binds stop ps [] = some ws ∧ fillIn ps ws = []) ∧
        ∀ n : ν, ¬ Separated (.var n :: ps) := by
  induction ps generalizing vs with
  | nil => cases h
  | cons p ps ih =>
    cases p with
    | lit a =>
      obtain ⟨rfl, -⟩ := Option.ite_none_right_eq_some.mp h
      left
      rw [nextStop, if_pos hd]
    | var m =>
      have hdrop : (d :: t).dropWhile (!stop ·) = d :: t :=
        List.dropWhile_cons_of_neg (by simp [hd])
      rw [spans, hdrop] at h
      obtain ⟨vs', h, -⟩ := Option.map_eq_some_iff.mp h
      rcases ih h with hnext | ⟨hnone, ⟨ws, hws, hfill⟩, hsep⟩
      · exact Or.inl hnext
      · refine Or.inr ⟨hnone, ⟨[] :: ws, ?_, hfill⟩, fun n hn => ?_⟩
        · rw [binds, List.dropWhile_nil, hws]
          rfl
        · exact hsep m (List.isChain_cons_cons.mp hn).2
    | rest m =>
      obtain ⟨vs', hps, -⟩ := Option.map_eq_some_iff.mp h
      obtain ⟨hbinds, hnone⟩ := binds_nil hps
      refine Or.inr ⟨hnone, ⟨[] :: vs', ?_, ?_⟩, fun n hn => ?_⟩
      · rw [binds, hbinds]
        rfl
      · rw [fillIn, fillIn_spans hps]
        rfl
      · exact (List.isChain_cons_cons.mp hn).1 ⟨rfl, rfl⟩

/-- **The two readers.** -/
theorem binds_of_spans {t : List α} {vs : List (List α)} (h : spans stop ps t = some vs) :
    ∃ ws, binds stop ps t = some ws ∧ fillIn ps ws = t ∧ (Separated ps → ws = vs) := by
  induction ps generalizing t vs with
  | nil =>
    cases t with
    | nil =>
      cases h
      exact ⟨[], rfl, rfl, fun _ => rfl⟩
    | cons b t => cases h
  | cons p ps ih =>
    cases p with
    | lit a =>
      cases t with
      | nil => cases h
      | cons b t =>
        obtain ⟨rfl, hps⟩ := Option.ite_none_right_eq_some.mp h
        obtain ⟨ws, hws, hfill, hsame⟩ := ih hps
        exact ⟨ws, by rw [binds, if_pos rfl, hws], by rw [fillIn, hfill],
          fun hsep => hsame hsep.tail⟩
    | rest n =>
      obtain ⟨vs', hps, rfl⟩ := Option.map_eq_some_iff.mp h
      refine ⟨t :: vs', ?_, ?_, fun _ => rfl⟩
      · rw [binds, (binds_nil hps).1]
        rfl
      · rw [fillIn, fillIn_spans hps, List.append_nil]
    | var n =>
      cases t with
      | nil => cases h
      | cons b t =>
        rw [spans] at h
        generalize b :: t = t at h ⊢
        obtain ⟨vs', hps, rfl⟩ := Option.map_eq_some_iff.mp h
        clear h
        have hsplit := List.takeWhile_append_dropWhile (p := (!stop ·)) (l := t)
        have hfront : ∀ c ∈ t.takeWhile (!stop ·), stop c = false := by
          intro c hc
          simpa using List.mem_takeWhile_imp hc
        have hhead := List.head?_dropWhile_not (!stop ·) t
        generalize t.takeWhile (!stop ·) = v at hsplit hfront ⊢
        generalize t.dropWhile (!stop ·) = r at hps hsplit hhead
        subst hsplit
        -- the second reader goes on where the first one does, or takes all
        have hsame : (∀ d ∈ r.head?, nextStop stop ps = some d) → ∃ ws,
            binds stop (.var n :: ps) (v ++ r) = some ws ∧
              fillIn (.var n :: ps) ws = v ++ r ∧ (Separated (.var n :: ps) → ws = v :: vs') := by
          intro hnext
          have hbefore : ∀ c ∈ v, before stop ps c = true := by
            intro c hc
            rw [before, bne_iff_ne]
            intro heq
            have := stop_of_nextStop heq
            rw [hfront c hc] at this
            contradiction
          have hstop : r.takeWhile (before stop ps) = [] ∧ r.dropWhile (before stop ps) = r := by
            cases r with
            | nil => exact ⟨rfl, rfl⟩
            | cons d r =>
              have hd : ¬ before stop ps d = true := by
                simp [before, hnext d rfl]
              exact ⟨List.takeWhile_cons_of_neg hd, List.dropWhile_cons_of_neg hd⟩
          obtain ⟨ws, hws, hfill, hvs⟩ := ih hps
          refine ⟨v :: ws, ?_, by rw [fillIn, hfill], fun hsep => by rw [hvs hsep.tail]⟩
          rw [binds, List.dropWhile_append_of_pos hbefore, List.takeWhile_append_of_pos hbefore,
            hstop.1, hstop.2, hws, List.append_nil]
          rfl
        cases r with
        | nil => exact hsame nofun
        | cons d r =>
          have hd : stop d = true := by simpa using hhead
          rcases spans_stop hd hps with hnext | ⟨hnone, ⟨ws, hws, hfill⟩, hsep⟩
          · exact hsame fun c hc => by rwa [← Option.some.inj hc]
          · have hall : ∀ c ∈ v ++ d :: r, before stop ps c = true := fun c _ => by
              rw [before, hnone]
              rfl
            refine ⟨(v ++ d :: r) :: ws, ?_, ?_, fun hn => absurd hn (hsep n)⟩
            · rw [binds, List.dropWhile_eq_nil_iff.mpr hall, List.takeWhile_eq_self_iff.mpr hall, hws]
              rfl
            · rw [fillIn, hfill, List.append_nil]

end

/-! ## Templates with a text in common -/

/-- The text fits the template; here a variable may also stand at the end of it. -/
inductive Fits : List (Piece α ν) → List α → Prop
  | nil : Fits [] []
  | lit {a : α} {ps : List (Piece α ν)} {t : List α} : Fits ps t → Fits (.lit a :: ps) (a :: t)
  | var {n : ν} {ps : List (Piece α ν)} {t : List α} :
    Fits ps (t.dropWhile (!stop ·)) → Fits (.var n :: ps) t
  | rest {n : ν} {ps : List (Piece α ν)} {t : List α} : Fits (.rest n :: ps) t

/-- A text may fit both, looked for in so many moves. -/
def meets : Nat → List (Piece α ν) → List (Piece α ν) → Bool
  | 0, _, _ => true
  | _ + 1, [], [] => true
  | _ + 1, .rest _ :: _, _ => true
  | _ + 1, _, .rest _ :: _ => true
  | k + 1, .var _ :: ps, .var _ :: qs => meets k ps qs
  | k + 1, .var n :: ps, .lit b :: qs =>
    if stop b then meets k ps (.lit b :: qs) else meets k (.var n :: ps) qs
  | k + 1, .lit a :: ps, .var n :: qs =>
    if stop a then meets k (.lit a :: ps) qs else meets k ps (.var n :: qs)
  | k + 1, .var _ :: ps, [] => meets k ps []
  | k + 1, [], .var _ :: qs => meets k [] qs
  | k + 1, .lit a :: ps, .lit b :: qs => decide (a = b) && meets k ps qs
  | _ + 1, .lit _ :: _, [] => false
  | _ + 1, [], .lit _ :: _ => false

section

variable {stop}
variable {ps qs : List (Piece α ν)} {t : List α}

theorem fits_of_spans {vs : List (List α)} (h : spans stop ps t = some vs) : Fits stop ps t := by
  induction ps generalizing t vs with
  | nil =>
    cases t with
    | nil => exact .nil
    | cons b t => cases h
  | cons p ps ih =>
    cases p with
    | lit a =>
      cases t with
      | nil => cases h
      | cons b t =>
        obtain ⟨rfl, hps⟩ := Option.ite_none_right_eq_some.mp h
        exact .lit (ih hps)
    | var n =>
      cases t with
      | nil => cases h
      | cons b t =>
        obtain ⟨vs', hps, -⟩ := Option.map_eq_some_iff.mp h
        exact .var (ih hps)
    | rest n => exact .rest

omit [DecidableEq α] in
/-- A variable at a stop takes nothing. -/
theorem Fits.at_stop {a : α} (ha : stop a = true)
    (h : Fits stop ps ((a :: t).dropWhile (!stop ·))) : Fits stop ps (a :: t) := by
  rwa [List.dropWhile_cons_of_neg (by simp [ha])] at h

omit [DecidableEq α] in
/-- Anywhere else it takes one more. -/
theorem Fits.goes_on {n : ν} {a : α} (ha : ¬ stop a = true)
    (h : Fits stop ps ((a :: t).dropWhile (!stop ·))) : Fits stop (.var n :: ps) t := by
  rw [List.dropWhile_cons_of_pos (by simpa using ha)] at h
  exact .var h

/-- **Templates that do not meet** have no text in common. -/
theorem meets_of_fits {k : Nat} (hp : Fits stop ps t) (hq : Fits stop qs t) :
    meets stop k ps qs = true := by
  induction k generalizing ps qs t with
  | zero => rfl
  | succ k ih =>
    cases hp with
    | nil =>
      cases hq with
      | nil => rfl
      | var hq => exact ih .nil hq
      | rest => rfl
    | @lit a ps t hp =>
      cases hq with
      | lit hq => simpa [meets] using ih hp hq
      | @var n qs _ hq =>
        rw [meets]
        split
        · next ha => exact ih (.lit hp) (.at_stop ha hq)
        · next ha => exact ih hp (.goes_on ha hq)
      | rest => rfl
    | @var n ps t hp =>
      cases hq with
      | nil => exact ih hp .nil
      | @lit b qs t hq =>
        rw [meets]
        split
        · next hb => exact ih (.at_stop hb hp) (.lit hq)
        · next hb => exact ih (.goes_on hb hp) hq
      | var hq => exact ih hp hq
      | rest => rfl
    | rest =>
      cases hq with
      | nil => rfl
      | lit => rfl
      | var => rfl
      | rest => rfl

theorem spans_eq_none {k : Nat} (h : meets stop k ps qs = false) (hp : spans stop ps t ≠ none) :
    spans stop qs t = none := by
  cases hq : spans stop qs t with
  | none => rfl
  | some vs =>
    obtain ⟨ws, hws⟩ := Option.ne_none_iff_exists'.mp hp
    rw [meets_of_fits (fits_of_spans hws) (fits_of_spans hq)] at h
    contradiction

end

end Template
