import Mathlib

/-!
# Framers

A framer takes a stream piece by piece and now and then gives a record; at the end it may hold one
more. `run` collects the records, `records` adds the last one, and `drive` hands each of them over
as it comes to a sink that may refuse, which ends the run. What a driven framer hands over is what
the plain run collects (`drive_ok`, `drive_error`), whatever tags the pieces carry.
-/

universe u

variable {σ α β τ ε ι : Type u}

structure Framer (σ α β : Type u) where
  put : σ → α → σ × Option β
  flush : σ → Option β

namespace Framer

/-- Feed the pieces and collect the records that end among them. -/
def run (F : Framer σ α β) : σ → List α → σ × List β
  | s, [] => (s, [])
  | s, a :: as =>
    let r := F.put s a
    let t := F.run r.1 as
    (t.1, r.2.toList ++ t.2)

/-- All records of a stream, the one still held at its end included. -/
def records (F : Framer σ α β) (s : σ) (as : List α) : List β :=
  (F.run s as).2 ++ (F.flush (F.run s as).1).toList

theorem run_append (F : Framer σ α β) (s : σ) (as bs : List α) :
    F.run s (as ++ bs) =
      ((F.run (F.run s as).1 bs).1, (F.run s as).2 ++ (F.run (F.run s as).1 bs).2) := by
  induction as generalizing s with
  | nil => rfl
  | cons a as ih => simp only [List.cons_append, run, ih, List.append_assoc]

theorem records_append (F : Framer σ α β) (s : σ) (as bs : List α) :
    F.records s (as ++ bs) = (F.run s as).2 ++ F.records (F.run s as).1 bs := by
  rw [records, run_append, List.append_assoc, ← records]

/-- A framer that another one follows step by step gives the same records. -/
theorem run_map {σ' α' : Type u} (F : Framer σ α β) (F' : Framer σ' α' β) (abs : σ → σ') (f : α → α')
    (hput : ∀ s a, F'.put (abs s) (f a) = (abs (F.put s a).1, (F.put s a).2)) (as : List α) (s : σ) :
    F'.run (abs s) (as.map f) = (abs (F.run s as).1, (F.run s as).2) := by
  induction as generalizing s with
  | nil => rfl
  | cons a as ih => simp only [List.map_cons, run, hput, ih]

/-- What is run does not depend on how the end is flushed. -/
theorem run_congr {F F' : Framer σ α β} (h : F.put = F'.put) : ∀ (as : List α) (s : σ),
    F.run s as = F'.run s as
  | [], _ => rfl
  | a :: as, s => by simp only [run, h, run_congr h as]

/-- An invariant of the state holds after any stream. -/
theorem run_inv (F : Framer σ α β) {I : σ → Prop} (keep : ∀ s a, I s → I (F.put s a).1) :
    ∀ (as : List α) (s : σ), I s → I (F.run s as).1
  | [], _, h => h
  | a :: as, s, h => run_inv F keep as (F.put s a).1 (keep s a h)

/-! ## Handing the records over -/

/-- Each record goes to `sink` as it comes, with the tag of the piece that completed it. -/
def drive (F : Framer σ α β) (sink : τ → ι → β → Except ε τ) :
    σ → τ → List (α × ι) → Except ε (σ × τ)
  | s, t, [] => .ok (s, t)
  | s, t, (a, i) :: as =>
    match F.put s a with
    | (s', none) => F.drive sink s' t as
    | (s', some r) =>
      match sink t i r with
      | .error e => .error e
      | .ok t' => F.drive sink s' t' as

variable {F : Framer σ α β} {sink : τ → ι → β → Except ε τ}

theorem drive_append (s : σ) (t : τ) (as bs : List (α × ι)) :
    F.drive sink s t (as ++ bs) =
      match F.drive sink s t as with
      | .error e => .error e
      | .ok (s', t') => F.drive sink s' t' bs := by
  induction as generalizing s t with
  | nil => rfl
  | cons p as ih =>
    obtain ⟨a, i⟩ := p
    simp only [List.cons_append, drive]
    split
    · exact ih _ _
    · split
      · rfl
      · exact ih _ _

/-- The sink took every record of the list. -/
inductive Took (sink : τ → ι → β → Except ε τ) : τ → List β → τ → Prop
  | nil {t : τ} : Took sink t [] t
  | cons {t t' t'' : τ} {i : ι} {r : β} {rs : List β} (h : sink t i r = .ok t')
      (tail : Took sink t' rs t'') : Took sink t (r :: rs) t''

/-- A driven framer that comes through leaves the state of the plain run, and the sink took what
the plain run collects. -/
theorem drive_ok {s s' : σ} {t t' : τ} {as : List (α × ι)}
    (h : F.drive sink s t as = .ok (s', t')) :
    s' = (F.run s (as.map Prod.fst)).1 ∧ Took sink t (F.run s (as.map Prod.fst)).2 t' := by
  induction as generalizing s t with
  | nil =>
    cases h
    exact ⟨rfl, .nil⟩
  | cons p as ih =>
    obtain ⟨a, i⟩ := p
    simp only [drive] at h
    split at h
    · next s₁ hp =>
      obtain ⟨h1, h2⟩ := ih h
      simp only [List.map_cons, run, hp, Option.toList_none, List.nil_append]
      exact ⟨h1, h2⟩
    · next s₁ r hp =>
      split at h
      · cases h
      · next t₁ hs =>
        obtain ⟨h1, h2⟩ := ih h
        simp only [List.map_cons, run, hp, Option.toList_some, List.singleton_append]
        exact ⟨h1, .cons hs h2⟩

/-- A driven framer that is refused had a record, and the sink took those before it. -/
theorem drive_error {s : σ} {t : τ} {e : ε} {as : List (α × ι)}
    (h : F.drive sink s t as = .error e) :
    ∃ rs r rs' t' i, (F.run s (as.map Prod.fst)).2 = rs ++ r :: rs' ∧ Took sink t rs t' ∧
      sink t' i r = .error e := by
  induction as generalizing s t with
  | nil => cases h
  | cons p as ih =>
    obtain ⟨a, i⟩ := p
    simp only [drive] at h
    split at h
    · next s₁ hp =>
      obtain ⟨rs, r, rs', t', j, h1, h2, h3⟩ := ih h
      simp only [List.map_cons, run, hp, Option.toList_none, List.nil_append]
      exact ⟨rs, r, rs', t', j, h1, h2, h3⟩
    · next s₁ r hp =>
      simp only [List.map_cons, run, hp, Option.toList_some, List.singleton_append]
      split at h
      · next e' hs =>
        cases h
        exact ⟨[], r, _, t, i, rfl, .nil, hs⟩
      · next t₁ hs =>
        obtain ⟨rs, r', rs', t', j, h1, h2, h3⟩ := ih h
        exact ⟨r :: rs, r', rs', t', j, by rw [h1]; rfl, .cons hs h2, h3⟩

/-! ## Cutting a stream -/

/-- Hold the stream back and cut it wherever what is held satisfies `p`. -/
def cutter (p : List α → Bool) : Framer (List α) α (List α) where
  put s a := if p (s ++ [a]) then ([], some (s ++ [a])) else (s ++ [a], none)
  flush s := if s = [] then none else some s

theorem cutter_put (p : List α → Bool) (s : List α) (a : α) :
    (cutter p).put s a = if p (s ++ [a]) then ([], some (s ++ [a])) else (s ++ [a], none) := rfl

/-- Nothing is lost or reordered by cutting. -/
theorem cutter_run_flatten (p : List α → Bool) (as : List α) : ∀ s : List α,
    ((cutter p).run s as).2.flatten ++ ((cutter p).run s as).1 = s ++ as := by
  induction as with
  | nil => exact fun s => (List.append_nil s).symm
  | cons a as ih =>
    intro s
    simp only [run, cutter_put]
    split
    · simp only [Option.toList_some, List.singleton_append, List.flatten_cons]
      rw [List.append_assoc, ih [], List.append_assoc]
      rfl
    · simp only [Option.toList_none, List.nil_append]
      rw [ih (s ++ [a]), List.append_assoc]
      rfl

theorem cutter_records_flatten (p : List α → Bool) (as : List α) :
    ((cutter p).records [] as).flatten = as := by
  have h := cutter_run_flatten p as []
  have hflush : ∀ s : List α, ((cutter p).flush s).toList.flatten = s := by
    intro s
    simp only [cutter]
    split
    · next h0 => rw [h0]; rfl
    · exact List.append_nil s
  rw [records, List.flatten_append, hflush]
  exact h

/-- A stretch that is cut off at its end and not before. -/
theorem cutter_run_cons {p : List α → Bool} {r : List α} {a : α} (hp : p (r ++ [a]) = true)
    (hno : ∀ r', r' <+: r → r' ≠ [] → p r' = false) (as : List α) :
    (cutter p).run [] (r ++ a :: as) =
      (((cutter p).run [] as).1, (r ++ [a]) :: ((cutter p).run [] as).2) := by
  have key : ∀ (t s : List α), s ++ t = r → (cutter p).run s (t ++ a :: as) =
      (((cutter p).run [] as).1, (r ++ [a]) :: ((cutter p).run [] as).2) := by
    intro t
    induction t with
    | nil =>
      intro s hs
      rw [List.append_nil] at hs
      subst hs
      simp only [List.nil_append, run, cutter_put, hp, if_true, Option.toList_some,
        List.singleton_append]
    | cons b t ih =>
      intro s hs
      have hpre : p (s ++ [b]) = false :=
        hno _ ⟨t, by rw [← hs, List.append_assoc]; rfl⟩ (by simp)
      simp only [List.cons_append, run, cutter_put, hpre, Bool.false_eq_true, if_false,
        Option.toList_none, List.nil_append]
      exact ih (s ++ [b]) (by rw [← hs, List.append_assoc]; rfl)
  exact key r [] rfl

/-- Cut at a length. -/
def blocks (n : Nat) : Framer (List α) α (List α) := cutter fun s => decide (n ≤ s.length)

theorem blocks_put (n : Nat) (s : List α) (a : α) : (blocks n).put s a =
    if n ≤ (s ++ [a]).length then ([], some (s ++ [a])) else (s ++ [a], none) := by
  simp only [blocks, cutter_put, decide_eq_true_eq]

/-- All blocks but the last have the length they are cut at. -/
theorem blocks_run_length {n : Nat} (hn : 0 < n) (as : List α) : ∀ s : List α, s.length < n →
    (∀ r ∈ ((blocks n).run s as).2, r.length = n) ∧ ((blocks n).run s as).1.length < n := by
  induction as with
  | nil => exact fun s hs => ⟨fun r hr => (nomatch hr), hs⟩
  | cons a as ih =>
    intro s hs
    have hlen : (s ++ [a]).length = s.length + 1 := by simp
    simp only [run, blocks_put]
    split
    · next hp =>
      obtain ⟨h1, h2⟩ := ih [] hn
      refine ⟨?_, h2⟩
      intro r hr
      rcases List.mem_cons.mp hr with rfl | hr
      · omega
      · exact h1 r hr
    · exact ih (s ++ [a]) (by omega)

theorem length_flatten_of_forall {rs : List (List α)} {n : Nat} (h : ∀ r ∈ rs, r.length = n) :
    rs.flatten.length = n * rs.length := by
  rw [List.length_flatten, List.map_congr_left h, List.map_const', List.sum_replicate_nat,
    Nat.mul_comm]

/-- Full blocks are cut apart as they were put together. -/
theorem blocks_records_flatten {n : Nat} (hn : 0 < n) {rs : List (List α)}
    (h : ∀ r ∈ rs, r.length = n) : (blocks n).records [] rs.flatten = rs := by
  have key : (blocks n).run [] rs.flatten = ([], rs) := by
    induction rs with
    | nil => rfl
    | cons r rs ih =>
      have hr := h r List.mem_cons_self
      obtain ⟨r', a, rfl⟩ : ∃ r' a, r = r' ++ [a] :=
        ⟨r.dropLast, r.getLast (List.ne_nil_of_length_pos (by omega)),
          (List.dropLast_append_getLast _).symm⟩
      rw [List.flatten_cons, List.append_assoc, List.singleton_append, blocks,
        cutter_run_cons (by simp [hr]), ← blocks, ih fun r hr => h r (List.mem_cons_of_mem _ hr)]
      intro t ht _
      have := ht.length_le
      rw [List.length_append, List.length_singleton] at hr
      exact decide_eq_false (by omega)
  rw [records, key]
  exact List.append_nil rs

/-- What is left over behind the last full block. -/
theorem blocks_held_length {n : Nat} (hn : 0 < n) (as : List α) :
    ((blocks n).run [] as).1.length = as.length % n := by
  obtain ⟨h1, h2⟩ := blocks_run_length hn as [] hn
  have hlen := congrArg List.length
    (cutter_run_flatten (fun s => decide (n ≤ s.length)) as [])
  rw [List.length_append, List.nil_append] at hlen
  change ((blocks n).run [] as).2.flatten.length + ((blocks n).run [] as).1.length = _ at hlen
  rw [length_flatten_of_forall h1] at hlen
  rw [← hlen, Nat.mul_add_mod, Nat.mod_eq_of_lt h2]

end Framer
