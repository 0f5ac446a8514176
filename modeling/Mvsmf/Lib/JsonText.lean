import Mvsmf.Lib.JsonVerbatim

/-!
# JSON texts as they are written

What has been read as JSON is taken apart again: the text between two brackets has its strings and
brackets closed, a value is a word, a string or such a text, and an object is the list of its members
with all the space between them.
-/

namespace Json

/-! ## Between brackets -/

def isOpen (c : Char) : Bool := c = '[' || c = '{'

def isClose (c : Char) : Bool := c = ']' || c = '}'

/-- Neither a quote nor a bracket. -/
def Neutral (c : Char) : Prop := c ≠ '"' ∧ isOpen c = false ∧ isClose c = false

instance : DecidablePred Neutral := fun _ => inferInstanceAs (Decidable (_ ∧ _))

theorem neutral_of_isWord {c : Char} (h : isWord c = true) : Neutral c := by
  have hne (d : Char) (hd : isWord d = false) : c ≠ d := isWord_ne h hd
  refine ⟨hne _ rfl, ?_, ?_⟩
  · simp [isOpen, hne '[' rfl, hne '{' rfl]
  · simp [isClose, hne ']' rfl, hne '}' rfl]

theorem neutral_of_isSpace {c : Char} (h : isSpace c = true) : Neutral c := by
  simp only [isSpace, Bool.or_eq_true, decide_eq_true_eq] at h
  rcases h with ((rfl | rfl) | rfl) | rfl <;> decide

/-- Strings and brackets end in the text they begin in; nothing is said of the rest. -/
inductive Inner : List Char → Prop
  | nil : Inner []
  | char {c : Char} {cs : List Char} : Neutral c → Inner cs → Inner (c :: cs)
  | string {body cs : List Char} {us : List Nat} : Chars body us → Inner cs →
      Inner ('"' :: (body ++ '"' :: cs))
  | group {o c : Char} {inner cs : List Char} : isOpen o = true → isClose c = true → Inner inner →
      Inner cs → Inner (o :: (inner ++ c :: cs))

/-- An array or an object that is open. -/
def Frame.Container : Frame → Prop
  | .doc _ => False
  | _ => True

/-- What a container is when it ends. -/
def Frame.Becomes : Frame → Value → Prop
  | .arr _, .arr _ => True
  | .obj _ _, .obj _ => True
  | _, _ => False

/-- The same container, further on. -/
def Frame.Same : Frame → Frame → Prop
  | .arr _, .arr _ => True
  | .obj _ _, .obj _ _ => True
  | _, _ => False

theorem Frame.Same.becomes {f f' : Frame} {w : Value} (h : f.Same f') (hw : f'.Becomes w) :
    f.Becomes w := by
  cases f <;> cases f' <;> cases w <;> first | exact h.elim | exact hw

theorem Frame.Same.container {f f' : Frame} (h : f.Same f') : f'.Container := by
  cases f <;> cases f' <;> first | exact h | exact h.elim

theorem Frame.Same.refl {f : Frame} (h : f.Container) : f.Same f := by
  cases f <;> exact h

theorem Frame.Same.trans {f f' f'' : Frame} (h : f.Same f') (h' : f'.Same f'') : f.Same f'' := by
  cases f <;> cases f' <;> cases f'' <;> first | exact h.elim | exact h'.elim | trivial

/-- No string is open. -/
def Mode.Outside : Mode → Prop
  | .chars _ _ | .escape _ _ | .code _ _ _ _ => False
  | _ => True

/-- A value does not end the container it is put into. -/
theorem put_container {f : Frame} (hf : f.Container) (st : List Frame) (w : Value) :
    ∃ f', put (f :: st) w = f' :: st ∧ f.Same f' := by
  cases f with
  | doc v => exact hf.elim
  | arr vs => exact ⟨_, rfl, trivial⟩
  | obj ms key =>
    cases key with
    | none => exact ⟨_, rfl, trivial⟩
    | some k => exact ⟨_, rfl, trivial⟩

/-- What one character does in an open container, outside of strings. -/
inductive Turn (f : Frame) (st : List Frame) (c : Char) : State → Prop
  | close {w : Value} : isClose c = true → f.Becomes w → Turn f st c ⟨put st w, .after⟩
  | quote {k : Bool} {f' : Frame} : c = '"' → f.Same f' → Turn f st c ⟨f' :: st, .chars k []⟩
  | opened {g f' : Frame} {m : Mode} : isOpen c = true → f.Same f' → g.Container → m.Outside →
      Turn f st c ⟨g :: f' :: st, m⟩
  | char {f' : Frame} {m : Mode} : Neutral c → f.Same f' → m.Outside → Turn f st c ⟨f' :: st, m⟩

theorem Turn.mono {f f' : Frame} {st : List Frame} {c : Char} {s : State} (h : f.Same f')
    (h' : Turn f' st c s) : Turn f st c s := by
  cases h' with
  | close hc hw => exact .close hc (h.becomes hw)
  | quote hc hf => exact .quote hc (h.trans hf)
  | opened hc hf hg hm => exact .opened hc (h.trans hf) hg hm
  | char hc hf hm => exact .char hc (h.trans hf) hm

theorem closeArr_turn {f : Frame} {st : List Frame} {s : State}
    (h : closeArr (f :: st) = some s) : Turn f st ']' s := by
  cases f with
  | arr vs =>
    cases h
    exact .close rfl trivial
  | _ => cases h

theorem closeObj_turn {f : Frame} {st : List Frame} {s : State}
    (h : closeObj (f :: st) = some s) : Turn f st '}' s := by
  unfold closeObj at h
  split at h
  · next heq =>
    cases heq
    cases h
    exact .close rfl trivial
  · cases h

theorem another_turn {f : Frame} {st : List Frame} {s : State} (h : another (f :: st) = some s) :
    Turn f st ',' s := by
  unfold another at h
  split at h
  · next heq =>
    cases heq
    cases h
    exact .char (by decide) trivial trivial
  · next heq =>
    cases heq
    cases h
    exact .char (by decide) trivial trivial
  · cases h

theorem separator_turn {f : Frame} {st : List Frame} {c : Char} {s : State} (hf : f.Container)
    (h : separator (f :: st) c = some s) : Turn f st c s := by
  unfold separator at h
  split at h
  · next hspace =>
    cases h
    exact .char (neutral_of_isSpace hspace) (.refl hf) trivial
  · split at h
    · next hc =>
      subst hc
      exact another_turn h
    · split at h
      · next hc =>
        subst hc
        exact closeArr_turn h
      · split at h
        · next hc =>
          subst hc
          exact closeObj_turn h
        · cases h

theorem step_turn {f : Frame} {st : List Frame} {m : Mode} {c : Char} {s : State}
    (hf : f.Container) (hm : m.Outside) (h : step ⟨f :: st, m⟩ c = some s) : Turn f st c s := by
  have hsame : f.Same f := .refl hf
  cases m with
  | value first =>
    simp only [step] at h
    split at h
    · next hc =>
      cases h
      exact .char (neutral_of_isSpace hc) hsame trivial
    split at h
    · next hc =>
      cases h
      exact .quote hc hsame
    split at h
    · next hc =>
      cases h
      exact .opened (by rw [hc]; rfl) hsame trivial trivial
    split at h
    · next hc =>
      cases h
      exact .opened (by rw [hc]; rfl) hsame trivial trivial
    split at h
    · next hc =>
      obtain ⟨rfl, -⟩ := hc
      exact closeArr_turn h
    split at h
    · next hc =>
      cases h
      exact .char (neutral_of_isWord hc) hsame trivial
    · cases h
  | key first =>
    simp only [step] at h
    split at h
    · next hc =>
      cases h
      exact .char (neutral_of_isSpace hc) hsame trivial
    split at h
    · next hc =>
      cases h
      exact .quote hc hsame
    split at h
    · next hc =>
      obtain ⟨rfl, -⟩ := hc
      exact closeObj_turn h
    · cases h
  | colon =>
    simp only [step] at h
    split at h
    · next hc =>
      cases h
      exact .char (neutral_of_isSpace hc) hsame trivial
    split at h
    · next hc =>
      cases h
      subst hc
      exact .char (by decide) hsame trivial
    · cases h
  | after => exact separator_turn hf h
  | word cs =>
    simp only [step] at h
    split at h
    · next hc =>
      cases h
      exact .char (neutral_of_isWord hc) hsame trivial
    · obtain ⟨v, -, hsep⟩ := Option.bind_eq_some_iff.mp h
      obtain ⟨f', hput, hf'⟩ := put_container hf st v
      rw [hput] at hsep
      exact (separator_turn hf'.container hsep).mono hf'
  | chars => exact hm.elim
  | escape => exact hm.elim
  | code => exact hm.elim

/-- Behind a string the container is open as it was. -/
theorem quoted_same {f : Frame} {st : List Frame} {us : List Nat} {k : Bool} {s : State}
    (hf : f.Container) (h : quoted (f :: st) us k = some s) :
    ∃ f' m, s = ⟨f' :: st, m⟩ ∧ f.Same f' ∧ m.Outside := by
  cases k with
  | false =>
    cases h
    obtain ⟨f', hput, hsame⟩ := put_container hf st (.str us)
    exact ⟨f', .after, by rw [hput], hsame, trivial⟩
  | true =>
    unfold quoted at h
    dsimp only at h
    split at h
    · next heq =>
      cases heq
      cases h
      exact ⟨_, .colon, rfl, trivial, trivial⟩
    · cases h

theorem settle_of_finish {s : State} {v : Value} (h : finish s = some v) :
    s.settle = some ⟨[.doc (some v)], .after⟩ := by
  rw [finish] at h
  obtain ⟨⟨st, m⟩, hs, hend⟩ := Option.bind_eq_some_iff.mp h
  dsimp only at hend
  split at hend
  · rw [hs, hend]
  · cases hend

/-- The document does not end in an open container. -/
theorem finish_container {f : Frame} {st : List Frame} {m : Mode} (hf : f.Container) {v : Value} :
    finish ⟨f :: st, m⟩ ≠ some v := by
  intro h
  have hs := settle_of_finish h
  cases m with
  | word cs =>
    obtain ⟨w, -, heq⟩ := Option.map_eq_some_iff.mp hs
    obtain ⟨f', hput, hsame⟩ := put_container hf st w
    rw [hput] at heq
    cases heq
    exact hsame.container
  | _ => cases hs <;> exact hf

/-- Where a text with an open container in it is read, the container ends. -/
theorem read_container {f : Frame} {st : List Frame} {m : Mode} {cs : List Char} {v : Value}
    (hf : f.Container) (hm : m.Outside) (h : read ⟨f :: st, m⟩ cs = some v) :
    ∃ inner c rest w, cs = inner ++ c :: rest ∧ Inner inner ∧ isClose c = true ∧ f.Becomes w ∧
      read ⟨put st w, .after⟩ rest = some v := by
  induction hn : cs.length using Nat.strongRecOn generalizing f st m cs with
  | ind n ih =>
    subst hn
    cases cs with
    | nil =>
      rw [read, feed_nil, Option.bind_some] at h
      exact absurd h (finish_container hf)
    | cons c cs =>
      obtain ⟨s, hs, hread⟩ := Option.bind_eq_some_iff.mp ((read_cons ..).symm.trans h)
      cases step_turn hf hm hs with
      | close hc hw => exact ⟨[], c, cs, _, rfl, .nil, hc, hw, hread⟩
      | quote hc hsame =>
        subst hc
        obtain ⟨body, us, t, rfl, hbody, hquoted⟩ := read_chars hread
        obtain ⟨s', hs', hread'⟩ := Option.bind_eq_some_iff.mp hquoted
        obtain ⟨f', m', rfl, hsame', hm'⟩ := quoted_same hsame.container hs'
        obtain ⟨inner, c, rest, w, rfl, hinner, hc, hw, hrest⟩ := ih t.length
          (by simp only [List.length_cons, List.length_append]; omega) hsame'.container hm' hread'
          rfl
        refine ⟨'"' :: (body ++ '"' :: inner), c, rest, w, by simp, .string hbody hinner, hc, ?_,
          hrest⟩
        exact (hsame.trans hsame').becomes hw
      | opened hc hsame hg hm' =>
        obtain ⟨inner, c', rest, w, rfl, hinner, hc', hw, hrest⟩ := ih cs.length
          (Nat.lt_succ_self _) hg hm' hread rfl
        obtain ⟨f', hput, hsame'⟩ := put_container hsame.container st w
        rw [hput] at hrest
        obtain ⟨inner', c'', rest', w', rfl, hinner', hc'', hw', hrest'⟩ := ih rest.length
          (by simp only [List.length_cons, List.length_append]; omega) hsame'.container
          (show Mode.Outside .after from trivial) hrest rfl
        refine ⟨c :: (inner ++ c' :: inner'), c'', rest', w', by simp,
          .group hc hc' hinner hinner', hc'', ?_, hrest'⟩
        exact (hsame.trans hsame').becomes hw'
      | char hc hsame hm' =>
        obtain ⟨inner, c', rest, w, rfl, hinner, hc', hw, hrest⟩ := ih cs.length
          (Nat.lt_succ_self _) hsame.container hm' hread rfl
        exact ⟨c :: inner, c', rest, w, rfl, .char hc hinner, hc', hsame.becomes hw, hrest⟩

/-! ## Values -/

/-- How a value is written. -/
inductive Written : List Char → Value → Prop
  | word {c : Char} {w : List Char} {v : Value} : (∀ d ∈ c :: w, isWord d = true) →
      (∀ us, v ≠ .str us) → Written (c :: w) v
  | string {body : List Char} {us : List Nat} : Chars body us →
      Written ('"' :: (body ++ ['"'])) (.str us)
  | group {o c : Char} {inner : List Char} {v : Value} : isOpen o = true → isClose c = true →
      Inner inner → (∀ us, v ≠ .str us) → Written (o :: (inner ++ [c])) v

theorem Written.head_iff {text : List Char} {v : Value} (h : Written text v) :
    text.head? = some '"' ↔ ∃ us, v = .str us := by
  cases h with
  | word hw hv =>
    refine iff_of_false (fun hq => ?_) fun ⟨us, heq⟩ => hv us heq
    cases Option.some.inj hq
    exact nomatch hw '"' List.mem_cons_self
  | string _ => exact iff_of_true rfl ⟨_, rfl⟩
  | group ho _ _ hv =>
    refine iff_of_false (fun hq => ?_) fun ⟨us, heq⟩ => hv us heq
    cases Option.some.inj hq
    exact nomatch ho

theorem Written.string_of {text : List Char} {us : List Nat} (h : Written text (.str us)) :
    ∃ body, text = '"' :: (body ++ ['"']) ∧ Chars body us := by
  generalize hv : Value.str us = v at h
  cases h with
  | word _ hne => exact absurd hv.symm (hne us)
  | string hbody =>
    cases hv
    exact ⟨_, rfl, hbody⟩
  | group _ _ _ hne => exact absurd hv.symm (hne us)

/-- A word is no string and no container. -/
theorem scalar_flat {cs : List Char} {v : Value} (h : scalar cs = some v) :
    (∀ us, v ≠ .str us) ∧ ∀ ms, v ≠ .obj ms := by
  unfold scalar at h
  split at h
  · cases h
    exact ⟨nofun, nofun⟩
  split at h
  · cases h
    exact ⟨nofun, nofun⟩
  split at h
  · cases h
    exact ⟨nofun, nofun⟩
  unfold number at h
  split at h
  · obtain ⟨⟨m, e⟩, -, rfl⟩ := Option.map_eq_some_iff.mp h
    exact ⟨nofun, nofun⟩
  · obtain ⟨⟨m, e⟩, -, rfl⟩ := Option.map_eq_some_iff.mp h
    exact ⟨nofun, nofun⟩

/-- An open word goes on to its last character. -/
theorem read_word {st : List Frame} {acc cs : List Char} {v : Value}
    (h : read ⟨st, .word acc⟩ cs = some v) :
    ∃ w rest u, cs = w ++ rest ∧ (∀ c ∈ w, isWord c = true) ∧ scalar (acc ++ w) = some u ∧
      read ⟨put st u, .after⟩ rest = some v := by
  induction cs generalizing acc with
  | nil =>
    obtain ⟨u, hu, heq⟩ := Option.map_eq_some_iff.mp (settle_of_finish h)
    refine ⟨[], [], u, rfl, nofun, by rwa [List.append_nil], ?_⟩
    rw [heq]
    rfl
  | cons c cs ih =>
    obtain ⟨s, hs, hread⟩ := Option.bind_eq_some_iff.mp ((read_cons ..).symm.trans h)
    simp only [step] at hs
    split at hs
    · next hc =>
      cases hs
      obtain ⟨w, rest, u, rfl, hw, hu, hrest⟩ := ih hread
      refine ⟨c :: w, rest, u, rfl, List.forall_mem_cons.mpr ⟨hc, hw⟩, ?_, hrest⟩
      rwa [List.append_cons]
    · obtain ⟨u, hu, hsep⟩ := Option.bind_eq_some_iff.mp hs
      refine ⟨[], c :: cs, u, rfl, nofun, by rwa [List.append_nil], ?_⟩
      rw [read_cons]
      exact Option.bind_eq_some_iff.mpr ⟨s, hsep, hread⟩

theorem becomes_ne_str {f : Frame} {w : Value} (h : f.Becomes w) (us : List Nat) : w ≠ .str us := by
  rintro rfl
  cases f <;> exact h

/-- A value that is due is written behind some space. -/
theorem read_value {st : List Frame} {cs : List Char} {v : Value}
    (h : read ⟨st, .value false⟩ cs = some v) :
    ∃ sep text rest w, cs = sep ++ (text ++ rest) ∧ (∀ c ∈ sep, isSpace c = true) ∧
      Written text w ∧ read ⟨put st w, .after⟩ rest = some v := by
  induction cs with
  | nil => exact nomatch h
  | cons c cs ih =>
    obtain ⟨s, hs, hread⟩ := Option.bind_eq_some_iff.mp ((read_cons ..).symm.trans h)
    have hgroup {g : Frame} {m : Mode} (hopen : isOpen c = true) (hg : g.Container)
        (hm : m.Outside) (hread : read ⟨g :: st, m⟩ cs = some v) :
        ∃ sep text rest w, c :: cs = sep ++ (text ++ rest) ∧ (∀ c ∈ sep, isSpace c = true) ∧
          Written text w ∧ read ⟨put st w, .after⟩ rest = some v := by
      obtain ⟨inner, c', rest, w, rfl, hinner, hclose, hw, hrest⟩ := read_container hg hm hread
      exact ⟨[], c :: (inner ++ [c']), rest, w, by simp, nofun,
        .group hopen hclose hinner (becomes_ne_str hw), hrest⟩
    simp only [step] at hs
    split at hs
    · next hc =>
      cases hs
      obtain ⟨sep, text, rest, w, rfl, hsep, htext, hrest⟩ := ih hread
      exact ⟨c :: sep, text, rest, w, rfl, List.forall_mem_cons.mpr ⟨hc, hsep⟩, htext, hrest⟩
    split at hs
    · next hc =>
      subst hc
      cases hs
      obtain ⟨body, us, t, rfl, hbody, hquoted⟩ := read_chars hread
      exact ⟨[], '"' :: (body ++ ['"']), t, .str us, by simp, nofun, .string hbody, hquoted⟩
    split at hs
    · next hc =>
      cases hs
      exact @hgroup (.arr []) (.value true) (by rw [hc]; rfl) trivial trivial hread
    split at hs
    · next hc =>
      cases hs
      exact @hgroup (.obj [] none) (.key true) (by rw [hc]; rfl) trivial trivial hread
    split at hs
    · next hc => cases hc.2
    split at hs
    · next hc =>
      cases hs
      obtain ⟨w, rest, u, rfl, hw, hu, hrest⟩ := read_word hread
      exact ⟨[], c :: w, rest, u, rfl, nofun,
        .word (List.forall_mem_cons.mpr ⟨hc, hw⟩) (scalar_flat hu).1, hrest⟩
    · cases hs

/-! ## Objects -/

/-- A member as it stands in the text, with the space around its parts. -/
structure Entry where
  lead : List Char
  name : List Char
  gap : List Char
  sep : List Char
  text : List Char
  tail : List Char
  key : List Nat
  value : Value

namespace Entry

def written (e : Entry) : List Char :=
  e.lead ++ '"' :: (e.name ++ '"' :: (e.gap ++ ':' :: (e.sep ++ (e.text ++ e.tail))))

/-- A member and the text behind it, from its name on. -/
def named (e : Entry) (rest : List Char) : List Char :=
  e.name ++ '"' :: (e.gap ++ ':' :: (e.sep ++ (e.text ++ (e.tail ++ rest))))

theorem written_append (e : Entry) (rest : List Char) :
    e.written ++ rest = e.lead ++ '"' :: e.named rest := by
  simp [written, named]

def member (e : Entry) : List Nat × Value := (e.key, e.value)

def Spaces (cs : List Char) : Prop := ∀ c ∈ cs, isSpace c = true

structure Ok (e : Entry) : Prop where
  lead : Spaces e.lead
  name : Chars e.name e.key
  gap : Spaces e.gap
  sep : Spaces e.sep
  text : Written e.text e.value
  tail : Spaces e.tail

end Entry

/-- Members with the commas between them, up to the bracket that ends them. -/
inductive Members : List Char → List Entry → Prop
  | last {e : Entry} : e.Ok → Members e.written [e]
  | more {e : Entry} {es : List Entry} {cs : List Char} : e.Ok → Members cs es →
      Members (e.written ++ ',' :: cs) (e :: es)

/-- What stands between the brackets of an object. -/
inductive Fields : List Char → List Entry → Prop
  | none {ws : List Char} : Entry.Spaces ws → Fields ws []
  | members {cs : List Char} {es : List Entry} : Members cs es → Fields cs es

/-- The members in front of one, with the commas behind them. -/
def opening (es : List Entry) : List Char := es.flatMap fun e => e.written ++ [',']

/-- The members behind one, with the commas in front of them. -/
def closing (es : List Entry) : List Char := es.flatMap fun e => ',' :: e.written

theorem Members.ok {inner : List Char} {es : List Entry} (h : Members inner es) :
    ∀ e ∈ es, e.Ok := by
  induction h with
  | last he => exact List.forall_mem_singleton.mpr he
  | more he _ ih => exact List.forall_mem_cons.mpr ⟨he, ih⟩

theorem Members.eq_cons {inner : List Char} {es : List Entry} (h : Members inner es) :
    ∃ e back, es = e :: back ∧ inner = e.written ++ closing back := by
  induction h with
  | last _ => exact ⟨_, [], rfl, (List.append_nil _).symm⟩
  | @more e es cs _ _ ih =>
    obtain ⟨f, back, rfl, rfl⟩ := ih
    exact ⟨e, f :: back, rfl, by simp [closing]⟩

theorem Members.eq_append {inner : List Char} {front back : List Entry} {e : Entry}
    (h : Members inner (front ++ e :: back)) :
    inner = opening front ++ (e.written ++ closing back) := by
  induction front generalizing inner with
  | nil =>
    obtain ⟨f, back', heq, rfl⟩ := h.eq_cons
    obtain ⟨rfl, rfl⟩ := List.cons.inj heq
    rfl
  | cons f front ih =>
    rw [List.cons_append] at h
    generalize hes : front ++ e :: back = es at h
    cases h with
    | last _ => simp at hes
    | more _ h =>
      subst hes
      rw [ih h]
      simp [opening]

/-- Space in front of what is due. -/
theorem read_spaces {st : List Frame} {m : Mode} {cs : List Char} {v : Value}
    (hm : ∀ c, isSpace c = true → step ⟨st, m⟩ c = some ⟨st, m⟩) (hend : finish ⟨st, m⟩ = none)
    (h : read ⟨st, m⟩ cs = some v) :
    ∃ ws c rest s, cs = ws ++ c :: rest ∧ Entry.Spaces ws ∧ isSpace c = false ∧
      step ⟨st, m⟩ c = some s ∧ read s rest = some v := by
  induction cs with
  | nil =>
    rw [read, feed_nil, Option.bind_some, hend] at h
    cases h
  | cons c cs ih =>
    obtain ⟨s, hs, hread⟩ := Option.bind_eq_some_iff.mp ((read_cons ..).symm.trans h)
    by_cases hc : isSpace c = true
    · rw [hm c hc] at hs
      cases hs
      obtain ⟨ws, c', rest, s, rfl, hws, hc', hs, hrest⟩ := ih hread
      exact ⟨c :: ws, c', rest, s, rfl, List.forall_mem_cons.mpr ⟨hc, hws⟩, hc', hs, hrest⟩
    · exact ⟨[], c, cs, s, rfl, List.forall_mem_nil _, by simpa using hc, hs, hread⟩

/-- The name of a member, its colon and its value. -/
theorem read_member {ms : List (List Nat × Value)} {st : List Frame} {cs : List Char} {v : Value}
    (h : read ⟨.obj ms none :: st, .chars true []⟩ cs = some v) (lead : List Char)
    (hlead : Entry.Spaces lead) :
    ∃ (e : Entry) (c : Char) (rest : List Char) (s : State),
      lead ++ '"' :: cs = e.written ++ c :: rest ∧ e.Ok ∧ isSpace c = false ∧
      separator (.obj (ms ++ [e.member]) none :: st) c = some s ∧ read s rest = some v := by
  obtain ⟨name, us, t, rfl, hname, hcolon⟩ := read_chars h
  rw [List.nil_append, quoted, Option.bind_some] at hcolon
  have hcolonStep (c : Char) (hc : isSpace c = true) :
      step ⟨.obj ms (some us) :: st, .colon⟩ c = some ⟨.obj ms (some us) :: st, .colon⟩ := by
    simp only [step, hc, if_true]
  obtain ⟨gap, c, t, s, rfl, hgap, hc, hs, hvalue⟩ := read_spaces hcolonStep rfl hcolon
  simp only [step, hc, Bool.false_eq_true, if_false] at hs
  split at hs
  · next hcc =>
    subst hcc
    cases hs
    obtain ⟨sep, text, t, w, rfl, hsep, htext, hafter⟩ := read_value hvalue
    have hafterStep (c : Char) (hc : isSpace c = true) :
        step ⟨put (.obj ms (some us) :: st) w, .after⟩ c =
          some ⟨put (.obj ms (some us) :: st) w, .after⟩ := by
      simp only [step, separator, hc, if_true]
    obtain ⟨tail, c, rest, s, rfl, htail, hc, hs, hrest⟩ := read_spaces hafterStep rfl hafter
    exact ⟨⟨lead, name, gap, sep, text, tail, us, w⟩, c, rest, s, by simp [Entry.written],
      ⟨hlead, hname, hgap, hsep, htext, htail⟩, hc, hs, hrest⟩
  · cases hs

/-- The members of an object that is open, up to its bracket. -/
theorem read_members {ms : List (List Nat × Value)} {st : List Frame} {first : Bool}
    {cs : List Char} {v : Value} (h : read ⟨.obj ms none :: st, .key first⟩ cs = some v) :
    ∃ inner es rest, cs = inner ++ '}' :: rest ∧
      (Members inner es ∨ first = true ∧ es = [] ∧ Entry.Spaces inner) ∧
      read ⟨put st (.obj (ms ++ es.map Entry.member)), .after⟩ rest = some v := by
  induction hn : cs.length using Nat.strongRecOn generalizing ms first cs with
  | ind n ih =>
    subst hn
    have hkey (c : Char) (hc : isSpace c = true) :
        step ⟨.obj ms none :: st, .key first⟩ c = some ⟨.obj ms none :: st, .key first⟩ := by
      simp only [step, hc, if_true]
    obtain ⟨lead, c, t, s, rfl, hlead, hc, hs, hread⟩ := read_spaces hkey rfl h
    simp only [step, hc, Bool.false_eq_true, if_false] at hs
    split at hs
    · next hcc =>
      subst hcc
      cases hs
      obtain ⟨e, c, rest, s, heq, hok, hc, hs, hrest⟩ := read_member hread lead hlead
      rw [heq]
      simp only [separator, hc, Bool.false_eq_true, if_false] at hs
      split at hs
      · next hcc =>
        subst hcc
        cases hs
        have hlt : rest.length < (lead ++ '"' :: t).length := by
          rw [heq]
          simp only [List.length_append, List.length_cons]
          omega
        obtain ⟨inner, es, rest, rfl, hmembers, hrest⟩ := ih rest.length hlt hrest rfl
        refine ⟨e.written ++ ',' :: inner, e :: es, rest, by simp, .inl (.more hok ?_), ?_⟩
        · exact hmembers.resolve_right (by simp)
        · rwa [List.map_cons, List.append_cons]
      split at hs
      · cases hs
      split at hs
      · next hcc =>
        subst hcc
        cases hs
        exact ⟨e.written, [e], rest, rfl, .inl (.last hok), hrest⟩
      · cases hs
    split at hs
    · next hcc =>
      obtain ⟨rfl, rfl⟩ := hcc
      cases hs
      exact ⟨lead, [], t, rfl, .inr ⟨rfl, rfl, hlead⟩, by rwa [List.map_nil, List.append_nil]⟩
    · cases hs

/-- Behind the document there is space. -/
theorem read_done {w v : Value} {cs : List Char} (h : read ⟨[.doc (some w)], .after⟩ cs = some v) :
    v = w ∧ Entry.Spaces cs := by
  induction cs with
  | nil =>
    cases h
    exact ⟨rfl, nofun⟩
  | cons c cs ih =>
    obtain ⟨s, hs, hread⟩ := Option.bind_eq_some_iff.mp ((read_cons ..).symm.trans h)
    simp only [step, separator] at hs
    split at hs
    · next hc =>
      cases hs
      obtain ⟨rfl, hcs⟩ := ih hread
      exact ⟨rfl, List.forall_mem_cons.mpr ⟨hc, hcs⟩⟩
    split at hs
    · cases hs
    split at hs
    · cases hs
    split at hs
    · cases hs
    · cases hs

/-- An object as it stands in a text that has nothing but space around it. -/
structure Layout (cs : List Char) (ms : List (List Nat × Value)) where
  lead : List Char
  inner : List Char
  trail : List Char
  entries : List Entry
  eq : cs = lead ++ '{' :: (inner ++ '}' :: trail)
  lead_spaces : Entry.Spaces lead
  fields : Fields inner entries
  trail_spaces : Entry.Spaces trail
  members : ms = entries.map Entry.member

/-- A text that is an object has a layout. -/
theorem parse_object {cs : List Char} {ms : List (List Nat × Value)}
    (h : parse cs = some (.obj ms)) : Nonempty (Layout cs ms) := by
  have hstart (c : Char) (hc : isSpace c = true) :
      step ⟨[.doc none], .value false⟩ c = some ⟨[.doc none], .value false⟩ := by
    simp only [step, hc, if_true]
  obtain ⟨lead, c, t, s, rfl, hlead, hc, hs, hread⟩ := read_spaces hstart rfl h
  simp only [step, hc, Bool.false_eq_true, if_false] at hs
  split at hs
  · cases hs
    obtain ⟨body, us, t, rfl, -, hquoted⟩ := read_chars hread
    cases (read_done hquoted).1
  split at hs
  · cases hs
    obtain ⟨inner, c', rest, w, rfl, -, -, hw, hrest⟩ :=
      @read_container (.arr []) _ (.value true) _ _ trivial trivial hread
    cases (read_done hrest).1
    exact hw.elim
  split at hs
  · next hcc =>
    subst hcc
    cases hs
    obtain ⟨inner, es, trail, rfl, hfields, hrest⟩ := read_members hread
    obtain ⟨heq, htrail⟩ := read_done hrest
    cases heq
    have hinner : Fields inner es := by
      rcases hfields with hmembers | ⟨-, rfl, hinner⟩
      · exact .members hmembers
      · exact .none hinner
    exact ⟨⟨lead, inner, trail, es, rfl, hlead, hinner, htrail, rfl⟩⟩
  split at hs
  · next hcc => cases hcc.2
  split at hs
  · cases hs
    obtain ⟨w, rest, u, rfl, -, hu, hrest⟩ := read_word hread
    cases (read_done hrest).1
    exact absurd rfl ((scalar_flat hu).2 _)
  · cases hs

namespace Layout

variable {cs : List Char} {ms : List (List Nat × Value)} (d : Layout cs ms)

/-- What stands behind the last of the members, or behind one with others after it. -/
def behind (back : List Entry) : List Char := closing back ++ '}' :: d.trail

/-- The last member of a name, by what it says, with the members behind it. -/
structure Last (name : List Nat) (e : Entry) (back : List Entry) : Prop where
  member : ∃ front, d.entries = front ++ e :: back
  key : e.key = name
  last : ∀ f ∈ back, f.key ≠ name

/-- The last member of a name, by how it is written. -/
structure LastWritten (name : List Char) (e : Entry) (back : List Entry) : Prop where
  member : ∃ front, d.entries = front ++ e :: back
  spelled : e.name = name
  last : ∀ f ∈ back, f.name ≠ name

theorem ok : ∀ e ∈ d.entries, e.Ok := by
  have h := d.fields
  generalize d.inner = inner at h
  generalize d.entries = es at h ⊢
  cases h with
  | none _ => exact nofun
  | members h => exact h.ok

theorem eq_append {front back : List Entry} {e : Entry} (h : d.entries = front ++ e :: back) :
    cs = d.lead ++ '{' :: (opening front ++ (e.written ++ d.behind back)) := by
  have hinner : d.inner = opening front ++ (e.written ++ closing back) := by
    have hf := d.fields
    rw [h] at hf
    generalize d.inner = inner at hf ⊢
    generalize hes : front ++ e :: back = es at hf
    cases hf with
    | none _ => simp at hes
    | members hf =>
      rw [← hes] at hf
      exact hf.eq_append
  conv_lhs => rw [d.eq, hinner]
  simp only [behind, List.append_assoc]

/-- A value stands at one place only. -/
theorem eq_of_place {front front' back back' : List Entry} {e e' : Entry}
    (h : d.entries = front ++ e :: back) (h' : d.entries = front' ++ e' :: back')
    (hplace : e.text ++ (e.tail ++ d.behind back) = e'.text ++ (e'.tail ++ d.behind back')) :
    e = e' ∧ back = back' := by
  have hlt {mid back' : List Entry} {e e' : Entry}
      (hplace : e.text ++ (e.tail ++ d.behind (mid ++ e' :: back')) =
        e'.text ++ (e'.tail ++ d.behind back')) : False := by
    have hlen := congrArg List.length hplace
    simp only [behind, closing, Entry.written, List.flatMap_append, List.flatMap_cons,
      List.length_append, List.length_cons] at hlen
    omega
  rcases List.append_eq_append_iff.mp (h.symm.trans h') with ⟨mid, -, heq⟩ | ⟨mid, -, heq⟩
  · cases mid with
    | nil => exact List.cons.inj heq
    | cons f mid =>
      obtain ⟨rfl, rfl⟩ := List.cons.inj heq
      exact (hlt hplace).elim
  · cases mid with
    | nil =>
      obtain ⟨rfl, rfl⟩ := List.cons.inj heq
      exact ⟨rfl, rfl⟩
    | cons f mid =>
      obtain ⟨rfl, rfl⟩ := List.cons.inj heq
      exact (hlt hplace.symm).elim

end Layout

end Json
