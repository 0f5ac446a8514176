import Mvsmf.Lib.Json

/-!
# Strings that are written as they are

A program that puts a text between quotes without an escape writes the string it means only where
the text has none of the characters that need one. And what a part of a JSON text says stands in the
value of the whole.
-/

namespace Json

theorem hexDigit_ne_quote {c : Char} {d : Nat} (h : hexDigit c = some d) : c ≠ '"' := by
  rintro rfl
  exact nomatch h

theorem hexFrom_ne_quote {hs : List Char} {n u : Nat} (h : hexFrom n hs = some u) :
    '"' ∉ hs := by
  induction hs generalizing n with
  | nil => exact nofun
  | cons c hs ih =>
    obtain ⟨d, hd, hu⟩ := Option.bind_eq_some_iff.mp h
    exact List.not_mem_cons_of_ne_of_not_mem (hexDigit_ne_quote hd).symm (ih hu)

theorem hexFrom_ne_escape {hs : List Char} {n u : Nat} (h : hexFrom n hs = some u) :
    '\\' ∉ hs := by
  induction hs generalizing n with
  | nil => exact nofun
  | cons c hs ih =>
    obtain ⟨d, hd, hu⟩ := Option.bind_eq_some_iff.mp h
    refine List.not_mem_cons_of_ne_of_not_mem ?_ (ih hu)
    rintro rfl
    exact nomatch hd

/-- A function that tells an element from the rest leaves it where it is. -/
theorem idxOf_map_of_iff {α β : Type} [DecidableEq α] [DecidableEq β] {f : α → β} {a : α} {b : β}
    (hf : ∀ x, f x = b ↔ x = a) (xs : List α) : (xs.map f).idxOf b = xs.idxOf a := by
  induction xs with
  | nil => rfl
  | cons x xs ih =>
    by_cases h : x = a
    · rw [List.map_cons, List.idxOf_cons_eq _ ((hf x).mpr h), List.idxOf_cons_eq _ h]
    · rw [List.map_cons, List.idxOf_cons_ne _ (mt (hf x).mp h), List.idxOf_cons_ne _ h, ih]

theorem toNat_eq_quote (c : Char) : c.toNat = 34 ↔ c = '"' :=
  ⟨fun h => Char.toNat_inj.mp h, fun h => h ▸ rfl⟩

/-- A quote of the string stands in front of the place its escape has in the text. -/
theorem Chars.idxOf_lt {body : List Char} {us : List Nat} (h : Chars body us) (hq : 34 ∈ us)
    (t : List Char) : us.idxOf 34 < (body ++ '"' :: t).idxOf '"' := by
  have hpos : ∀ {u : Nat} {us : List Nat} {n : Nat},
      (u ≠ 34 → us.idxOf 34 + 1 < n) → 0 < n → (u :: us).idxOf 34 < n := by
    intro u us n h h0
    by_cases hu : u = 34
    · rwa [List.idxOf_cons_eq _ hu]
    · rw [List.idxOf_cons_ne _ hu]
      exact h hu
  have hback : '\\' ≠ '"' := by decide
  have hcode : 'u' ≠ '"' := by decide
  induction h with
  | nil => exact nomatch hq
  | @plain c cs us hc _ ih =>
    have hne : c.toNat ≠ 34 := mt (toNat_eq_quote c).mp hc.1
    have := ih (List.mem_of_ne_of_mem hne.symm hq)
    rw [List.cons_append, List.idxOf_cons_ne _ hc.1, List.idxOf_cons_ne _ hne]
    omega
  | @short e u cs us he _ ih =>
    rw [List.cons_append, List.cons_append, List.idxOf_cons_ne _ hback]
    refine hpos (fun hu => ?_) (Nat.succ_pos _)
    have hne : e ≠ '"' := by
      rintro rfl
      exact hu (Option.some.inj he).symm
    have := ih (List.mem_of_ne_of_mem (Ne.symm hu) hq)
    rw [List.idxOf_cons_ne _ hne]
    omega
  | @code hs u cs us hl hu _ ih =>
    rw [List.cons_append, List.cons_append, List.append_assoc, List.idxOf_cons_ne _ hback,
      List.idxOf_cons_ne _ hcode, List.idxOf_append_of_notMem (hexFrom_ne_quote hu), hl]
    refine hpos (fun hne => ?_) (by omega)
    have := ih (List.mem_of_ne_of_mem (Ne.symm hne) hq)
    omega

/-- An escaped quote is a quote of the string. -/
theorem Chars.quote_mem {body : List Char} {us : List Nat} (h : Chars body us)
    (hq : '"' ∈ body) : 34 ∈ us := by
  induction h with
  | nil => exact nomatch hq
  | plain hc _ ih => exact List.mem_cons_of_mem _ (ih (List.mem_of_ne_of_mem (Ne.symm hc.1) hq))
  | @short e u cs us he _ ih =>
    by_cases hee : e = '"'
    · subst hee
      obtain rfl := Option.some.inj he
      exact List.mem_cons_self
    · refine List.mem_cons_of_mem _ (ih ?_)
      exact List.mem_of_ne_of_mem (Ne.symm hee) (List.mem_of_ne_of_mem (by decide) hq)
  | @code hs u cs us hl hu _ ih =>
    have hrest := List.mem_of_ne_of_mem (by decide) (List.mem_of_ne_of_mem (by decide) hq)
    refine List.mem_cons_of_mem _ (ih ?_)
    exact (List.mem_append.mp hrest).resolve_left (hexFrom_ne_quote hu)

/-- Each escape makes the text longer than the string. -/
theorem Chars.length_le {body : List Char} {us : List Nat} (h : Chars body us) :
    us.length ≤ body.length ∧ ('\\' ∈ body → us.length < body.length) := by
  induction h with
  | nil => exact ⟨Nat.le_refl _, nofun⟩
  | plain hc _ ih =>
    simp only [List.length_cons]
    refine ⟨by omega, fun hb => ?_⟩
    have := ih.2 (List.mem_of_ne_of_mem (Ne.symm hc.2.1) hb)
    omega
  | short _ _ ih =>
    simp only [List.length_cons]
    omega
  | code hl _ _ ih =>
    simp only [List.length_cons, List.length_append]
    omega

theorem Chars.plain_of {body : List Char} {us : List Nat} (h : Chars body us) (hb : '\\' ∉ body) :
    (∀ c ∈ body, Plain c) ∧ us = units body := by
  induction h with
  | nil => exact ⟨nofun, rfl⟩
  | plain hc _ ih =>
    obtain ⟨hall, rfl⟩ := ih fun hin => hb (List.mem_cons_of_mem _ hin)
    exact ⟨List.forall_mem_cons.mpr ⟨hc, hall⟩, rfl⟩
  | short => exact absurd List.mem_cons_self hb
  | code => exact absurd List.mem_cons_self hb

/-- A text stands for one string. -/
theorem Chars.unique {body : List Char} {us vs : List Nat} (h : Chars body us)
    (h' : Chars body vs) : us = vs := by
  have hfeed := (h.feed [] false []).symm.trans (h'.feed [] false [])
  simpa using hfeed

theorem units_inj {xs ys : List Char} (h : units xs = units ys) : xs = ys :=
  List.map_injective_iff.mpr (fun _ _ => Char.toNat_inj.mp) h

/-- Between quotes stands `name` as it is. If a string is read from there that is `name` (or cannot
be told from it by an `f` that tells a quote), then `name` was read, and it has no escape. -/
theorem Chars.verbatim {f : Nat → Nat} (hf : ∀ u, f u = 34 ↔ u = 34) {body name t t' : List Char}
    {us : List Nat} (h : Chars body us) (heq : body ++ '"' :: t = name ++ '"' :: t')
    (hus : us.map f = (units name).map f) : body = name ∧ '\\' ∉ body := by
  have hmem : ∀ {xs ys : List Nat}, xs.map f = ys.map f → 34 ∈ xs → 34 ∈ ys := by
    intro xs ys he hx
    obtain ⟨w, hw, hfw⟩ := List.mem_map.mp (he ▸ List.mem_map.mpr ⟨34, hx, (hf 34).mpr rfl⟩)
    rwa [(hf w).mp hfw] at hw
  by_cases hq : 34 ∈ us
  · -- the first quote of the text is the one of `name`, too early for its escape
    obtain ⟨c, hc, hc34⟩ := List.mem_map.mp (hmem hus hq)
    obtain rfl : c = '"' := (toNat_eq_quote c).mp hc34
    have hat : us.idxOf 34 = name.idxOf '"' := by
      rw [← idxOf_map_of_iff toNat_eq_quote name, ← idxOf_map_of_iff hf us, hus,
        idxOf_map_of_iff hf]
      rfl
    have hlt := h.idxOf_lt hq t
    rw [heq, List.idxOf_append_of_mem hc, hat] at hlt
    exact absurd hlt (Nat.lt_irrefl _)
  · have hbody : '"' ∉ body := fun hin => hq (h.quote_mem hin)
    have hname : '"' ∉ name := fun hin => hq (hmem hus.symm (List.mem_map.mpr ⟨_, hin, rfl⟩))
    have hlen : body.length = name.length := by
      have hidx := congrArg (List.idxOf '"') heq
      rwa [List.idxOf_append_of_notMem hbody, List.idxOf_append_of_notMem hname,
        List.idxOf_cons_self, List.idxOf_cons_self] at hidx
    obtain ⟨rfl, -⟩ := List.append_inj heq hlen
    refine ⟨rfl, fun hb => ?_⟩
    have := h.length_le.2 hb
    have := congrArg List.length hus
    simp only [List.length_map, units] at this
    omega

/-! ## What a value is sure to have -/

/-- The document that is read with these containers open will be `v`, or may. -/
inductive Within : List Frame → Value → Prop
  | due (v : Value) : Within [.doc none] v
  | done (v : Value) : Within [.doc (some v)] v
  | arr {vs : List Value} {st : List Frame} {v : Value} (more : List Value) :
      Within (put st (.arr (vs ++ more))) v → Within (.arr vs :: st) v
  | obj {ms : List (List Nat × Value)} {st : List Frame} {v : Value}
      (more : List (List Nat × Value)) :
      Within (put st (.obj (ms ++ more))) v → Within (.obj ms none :: st) v
  | member {ms : List (List Nat × Value)} {k : List Nat} {st : List Frame} {v : Value} (w : Value)
      (more : List (List Nat × Value)) :
      Within (put st (.obj (ms ++ (k, w) :: more))) v → Within (.obj ms (some k) :: st) v

/-- The name of the member that is to come. -/
def named (us : List Nat) : List Frame → List Frame
  | .obj ms none :: st => .obj ms (some us) :: st
  | st => st

/-- The same in the middle of a text; a name that is not read to its end may go on. -/
def State.Within (s : State) (v : Value) : Prop :=
  match s.mode with
  | .chars true us | .escape true us | .code true us _ _ =>
    ∃ more, Json.Within (named (us ++ more) s.stack) v
  | _ => Json.Within s.stack v

theorem within_put {t : List Frame} {w v : Value} (h : Within (put t w) v) : Within t v := by
  match t with
  | [] => exact h
  | .doc none :: st =>
    cases h with
    | done => exact .due _
  | .doc (some x) :: st => exact h
  | .arr vs :: st =>
    cases h with
    | arr more h => exact .arr (w :: more) (List.append_cons .. ▸ h)
  | .obj ms none :: st => exact h
  | .obj ms (some k) :: st =>
    cases h with
    | obj more h => exact .member w more (List.append_cons .. ▸ h)

theorem within_named {k : List Nat} {st : List Frame} {v : Value} (h : Within (named k st) v) :
    Within st v := by
  match st with
  | .obj ms none :: st =>
    cases h with
    | member w more h => exact .obj ((k, w) :: more) h
  | [] | .doc _ :: _ | .arr _ :: _ | .obj _ (some _) :: _ => exact h

theorem closeArr_within {st : List Frame} {s : State} {v : Value} (hs : closeArr st = some s)
    (h : s.Within v) : Within st v := by
  match st with
  | .arr vs :: st =>
    obtain rfl := Option.some.inj hs
    exact .arr [] ((List.append_nil vs).symm ▸ h)

theorem closeObj_within {st : List Frame} {s : State} {v : Value} (hs : closeObj st = some s)
    (h : s.Within v) : Within st v := by
  match st with
  | .obj ms none :: st =>
    obtain rfl := Option.some.inj hs
    exact .obj [] ((List.append_nil ms).symm ▸ h)

theorem another_within {st : List Frame} {s : State} {v : Value} (hs : another st = some s)
    (h : s.Within v) : Within st v := by
  match st with
  | .arr vs :: st => obtain rfl := Option.some.inj hs; exact h
  | .obj ms none :: st => obtain rfl := Option.some.inj hs; exact h

theorem separator_within {st : List Frame} {c : Char} {s : State} {v : Value}
    (hs : separator st c = some s) (h : s.Within v) : Within st v := by
  unfold separator at hs
  split at hs
  · obtain rfl := Option.some.inj hs
    exact h
  · split at hs
    · exact another_within hs h
    · split at hs
      · exact closeArr_within hs h
      · split at hs
        · exact closeObj_within hs h
        · exact nomatch hs

theorem quoted_within {st : List Frame} {us : List Nat} {k : Bool} {s : State} {v : Value}
    (hs : quoted st us k = some s) (h : s.Within v) : (State.mk st (.chars k us)).Within v := by
  cases k with
  | false =>
    obtain rfl := Option.some.inj hs
    exact within_put h
  | true =>
    match st with
    | .obj ms none :: st =>
      obtain rfl := Option.some.inj hs
      exact ⟨[], (List.append_nil us).symm ▸ h⟩

/-- In a string that goes on. -/
theorem longer_within {st : List Frame} {k : Bool} {us : List Nat} {u : Nat} {v : Value}
    (h : (State.mk st (.chars k (us ++ [u]))).Within v) : (State.mk st (.chars k us)).Within v := by
  cases k with
  | false => exact h
  | true =>
    obtain ⟨more, h⟩ := h
    exact ⟨u :: more, List.append_cons .. ▸ h⟩

theorem step_within {s s' : State} {c : Char} {v : Value} (hs : step s c = some s')
    (h : s'.Within v) : s.Within v := by
  obtain ⟨st, m⟩ := s
  cases m with
  | value f =>
    simp only [step] at hs
    split at hs
    · obtain rfl := Option.some.inj hs
      exact h
    · split at hs
      · obtain rfl := Option.some.inj hs
        exact h
      · split at hs
        · obtain rfl := Option.some.inj hs
          cases h with
          | arr more h => exact within_put h
        · split at hs
          · obtain rfl := Option.some.inj hs
            cases h with
            | obj more h => exact within_put h
          · split at hs
            · exact closeArr_within hs h
            · split at hs
              · obtain rfl := Option.some.inj hs
                exact h
              · cases hs
  | key f =>
    simp only [step] at hs
    split at hs
    · obtain rfl := Option.some.inj hs
      exact h
    · split at hs
      · obtain rfl := Option.some.inj hs
        obtain ⟨more, h⟩ := h
        exact within_named h
      · split at hs
        · exact closeObj_within hs h
        · cases hs
  | colon =>
    simp only [step] at hs
    split at hs
    · obtain rfl := Option.some.inj hs
      exact h
    · split at hs
      · obtain rfl := Option.some.inj hs
        exact h
      · cases hs
  | after => exact separator_within hs h
  | chars k us =>
    simp only [step] at hs
    split at hs
    · exact quoted_within hs h
    · split at hs
      · obtain rfl := Option.some.inj hs
        cases k <;> exact h
      · split at hs
        · cases hs
        · obtain rfl := Option.some.inj hs
          exact longer_within h
  | escape k us =>
    simp only [step] at hs
    split at hs
    · obtain rfl := Option.some.inj hs
      cases k <;> exact h
    · obtain ⟨u, -, rfl⟩ := Option.map_eq_some_iff.mp hs
      have := longer_within h
      cases k <;> exact this
  | code k us n left =>
    obtain ⟨d, -, rfl⟩ := Option.map_eq_some_iff.mp hs
    have : (State.mk st (.chars k us)).Within v := by
      split at h
      · exact longer_within h
      · cases k <;> exact h
    cases k <;> exact this
  | word cs =>
    simp only [step] at hs
    split at hs
    · obtain rfl := Option.some.inj hs
      exact h
    · obtain ⟨w, -, hs⟩ := Option.bind_eq_some_iff.mp hs
      exact within_put (separator_within hs h)

theorem finish_within {s : State} {v : Value} (h : finish s = some v) : s.Within v := by
  obtain ⟨⟨st', m'⟩, hs, h⟩ := Option.bind_eq_some_iff.mp h
  have hdone : m' = .after ∧ Json.Within st' v := by
    dsimp only at h
    split at h
    · exact ⟨rfl, h ▸ .done v⟩
    · exact nomatch h
  obtain ⟨st, m⟩ := s
  cases m with
  | word cs =>
    obtain ⟨w, -, heq⟩ := Option.map_eq_some_iff.mp hs
    obtain ⟨rfl, -⟩ := State.mk.inj heq
    exact within_put hdone.2
  | after =>
    obtain ⟨rfl, -⟩ := State.mk.inj (Option.some.inj hs)
    exact hdone.2
  | _ =>
    obtain ⟨-, hm⟩ := State.mk.inj (Option.some.inj hs)
    exact nomatch hm.trans hdone.1

/-- The rest of the text takes nothing back. -/
theorem read_within {s : State} {cs : List Char} {v : Value} (h : read s cs = some v) :
    s.Within v := by
  induction cs generalizing s with
  | nil => exact finish_within h
  | cons c cs ih =>
    obtain ⟨s', hs, h⟩ := Option.bind_eq_some_iff.mp ((read_cons ..).symm.trans h)
    exact step_within hs (ih h)

/-- A value is due in the innermost container. -/
def Room : List Frame → Prop
  | [.doc none] => True
  | .arr _ :: st => Room st
  | .obj _ (some _) :: st => Room st
  | _ => False

/-- What is put in a place is what the document has there. -/
theorem Within.put_inj {st : List Frame} (hr : Room st) {a b v : Value} (ha : Within (put st a) v)
    (hb : Within (put st b) v) : a = b := by
  induction st generalizing a b with
  | nil => exact hr.elim
  | cons f st ih =>
    match f, st with
    | .doc none, [] =>
      cases ha with
      | done => cases hb with
        | done => rfl
    | .arr vs, st =>
      cases ha with
      | arr more ha => cases hb with
        | arr more' hb =>
          have := Value.arr.inj (ih hr ha hb)
          rw [List.append_assoc, List.append_assoc, List.append_cancel_left_eq] at this
          exact (List.cons.inj this).1
    | .obj ms (some k), st =>
      cases ha with
      | obj more ha => cases hb with
        | obj more' hb =>
          have := Value.obj.inj (ih hr ha hb)
          rw [List.append_assoc, List.append_assoc, List.append_cancel_left_eq] at this
          exact (Prod.mk.inj (List.cons.inj this).1).2

/-- The name of a member is the name the document has there. -/
theorem Within.name_inj {st : List Frame} (hr : Room st) {ms : List (List Nat × Value)}
    {j k : List Nat} {v : Value} (hj : Within (.obj ms (some j) :: st) v)
    (hk : Within (.obj ms (some k) :: st) v) : j = k := by
  cases hj with
  | member w more hj => cases hk with
    | member w' more' hk =>
      have := Value.obj.inj (hj.put_inj hr hk)
      rw [List.append_cancel_left_eq] at this
      exact (Prod.mk.inj (List.cons.inj this).1).1

/-! ## Formats -/

theorem feed_within {s s' : State} {cs : List Char} {v : Value} (hs : feed s cs = some s')
    (h : s'.Within v) : s.Within v := by
  induction cs generalizing s with
  | nil => exact Option.some.inj hs ▸ h
  | cons c cs ih =>
    obtain ⟨s₁, hc, hs⟩ := Option.bind_eq_some_iff.mp hs
    exact step_within hc (ih hs)

/-- A text that a format makes: parts that are read as they stand, and texts put between quotes as
they are. The last state is the one a reader comes to if those are read as themselves. -/
inductive Format : State → List Char → List (List Char) → State → Prop
  | done (s : State) : Format s [] [] s
  | fixed {s m s' : State} {p t : List Char} {holes : List (List Char)} :
      feed s p = some m → Format m t holes s' → Format s (p ++ t) holes s'
  | hole {st : List Frame} {s' : State} {name t : List Char} {holes : List (List Char)} :
      Room st → Format ⟨put st (.str (units name)), .after⟩ t holes s' →
      Format ⟨st, .chars false []⟩ (name ++ '"' :: t) (name :: holes) s'

theorem Format.within {s s' : State} {cs : List Char} {holes : List (List Char)} {v : Value}
    (h : Format s cs holes s') (hv : s'.Within v) : s.Within v := by
  induction h with
  | done => exact hv
  | fixed hfeed _ ih => exact feed_within hfeed (ih hv)
  | hole _ _ ih => exact within_put (ih hv)

/-- It is read as the value it is meant to have if and only if no text put in needs an escape. -/
theorem Format.read_iff {s s' : State} {cs : List Char} {holes : List (List Char)} {v : Value}
    (h : Format s cs holes s') (hv : finish s' = some v) :
    read s cs = some v ↔ ∀ name ∈ holes, ∀ c ∈ name, Plain c := by
  induction h with
  | done => exact ⟨fun _ => nofun, fun _ => hv⟩
  | fixed hfeed _ ih => rw [read_append, hfeed, Option.bind_some, ih hv]
  | @hole st s' name t holes hr hrest ih =>
    rw [List.forall_mem_cons, ← ih hv]
    constructor
    · intro hread
      obtain ⟨body, us, t', heq, hbody, hread⟩ := read_chars hread
      rw [List.nil_append] at hread
      have hus : us = units name :=
        Value.str.inj (Within.put_inj hr (read_within hread) (hrest.within (finish_within hv)))
      obtain ⟨rfl, hb⟩ := hbody.verbatim (f := id) (fun _ => Iff.rfl) heq.symm
        (by rw [List.map_id, List.map_id, hus])
      obtain rfl := (List.cons.inj (List.append_cancel_left heq)).2
      exact ⟨(hbody.plain_of hb).1, hus ▸ hread⟩
    · rintro ⟨hplain, hread⟩
      rw [read_append, (Chars.of_plain hplain).feed, Option.bind_some, List.nil_append]
      exact hread

end Json
