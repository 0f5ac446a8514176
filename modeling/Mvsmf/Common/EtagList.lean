import Mvsmf.Common.Etag
import Mvsmf.Lib.Fields

/-!
# Lists of entity tags

A header value as a list: elements with blanks around them, each a `*` or a tag, quoted or bare. The
scan of `etag_matches` looks for the end of a value at the next comma, inside the quotes too, and
takes the first `*` of an entry for the wildcard.
-/

namespace Mvsmf

/-! ## The grammar -/

/-- A character of a bare tag. -/
def isBareChar (c : Char) : Bool := isEtagValue c && !isEtagBlank c

/-- An element: `*`, or a tag. A bare tag that begins with `W/` is the weak one. -/
structure TagElement where
  weak : Bool
  quoted : Bool
  value : List Char
  quoted_ok : quoted = true → '"' ∉ value
  bare_ok : quoted = false → value.all isBareChar = true
  weak_ok : quoted = false → weak = false → ¬ "W/".toList <+: value

namespace TagElement

def body (e : TagElement) : List Char := if e.quoted then '"' :: (e.value ++ ['"']) else e.value

def text (e : TagElement) : List Char := if e.weak then 'W' :: '/' :: e.body else e.body

/-- Exactly `*`, or the stamp up to the case of its digits. -/
def Matches (etag : List Char) (e : TagElement) : Prop :=
  e.text = ['*'] ∨ e.value.map etagFold = etag.map etagFold

end TagElement

/-- An element with the blanks around it. -/
structure ListedTag where
  lead : List Char
  element : TagElement
  trail : List Char
  lead_ok : lead.all isEtagBlank = true
  trail_ok : trail.all isEtagBlank = true

def ListedTag.text (l : ListedTag) : List Char := l.lead ++ (l.element.text ++ l.trail)

/-- The header value of a list. -/
def tagList (ls : List ListedTag) : List Char := [','].intercalate (ls.map ListedTag.text)

/-! ## What the scan takes for a match -/

/-- A piece behind a comma is read as an entry: `*` in front, or the stamp with blanks behind it. -/
def pieceHits (etag w : List Char) : Bool :=
  (w.dropWhile isEtagBlank).head? == some '*' ||
    etagValueMatches (etagWeak (w.dropWhile isEtagBlank)) etag

/-- What the scan makes of an element: a bare value that begins with `*` is the wildcard to it, and
of a quoted one each piece between commas is an entry. -/
def TagElement.hits (etag : List Char) (e : TagElement) : Bool :=
  if e.quoted then
    etagValueMatches ((e.value.splitOn ',').headD []) etag ||
      (e.value.splitOn ',').tail.any (pieceHits etag)
  else !e.weak && e.value.head? == some '*' || etagValueMatches e.value etag

/-- An element that is no match and read as one: a bare value that begins with `*` and goes on; a
quoted one that is the stamp with blanks, or with a comma, behind it, or has a comma with the
wildcard or the stamp behind it. -/
def TagElement.Misread (etag : List Char) (e : TagElement) : Prop :=
  if e.quoted then
    (etagValueMatches ((e.value.splitOn ',').headD []) etag = true ∧
      e.value.map etagFold ≠ etag.map etagFold) ∨
    ∃ w ∈ (e.value.splitOn ',').tail, pieceHits etag w = true
  else e.weak = false ∧ e.value.head? = some '*' ∧ e.value ≠ ['*']

/-! ## The scan over one entry -/

/-- What follows an element: the end, or a comma. -/
def EndsElement (p : List Char) : Prop := p = [] ∨ ∃ t, p = ',' :: t

section Scan

variable {etag : List Char}

theorem exec_sep {c : Char} (hc : isEtagSep c = true) (p : List Char) :
    (etagLoop etag).exec (c :: p) = (etagLoop etag).exec p := by
  have hstep : (etagLoop etag).step (c :: p) = (etagLoop etag).step p := by
    change etagEntry etag (c :: p) = etagEntry etag p
    rw [etagEntry, etagEntry, List.dropWhile_cons_of_pos hc]
  rw [Loop.exec_eq, hstep, ← Loop.exec_eq]

theorem exec_blanks {bs : List Char} (hbs : bs.all isEtagBlank = true) (p : List Char) :
    (etagLoop etag).exec (bs ++ p) = (etagLoop etag).exec p := by
  induction bs with
  | nil => rfl
  | cons b bs ih =>
    obtain ⟨hb, hbs⟩ := Bool.and_eq_true_iff.mp hbs
    have hsep : isEtagSep b = true := by
      rw [isEtagSep, Bool.or_eq_true]
      exact Or.inl hb
    rw [List.cons_append, exec_sep hsep, ih hbs]

theorem exec_end : (etagLoop etag).exec [] = false := Loop.exec_done _ rfl

theorem exec_star (p : List Char) : (etagLoop etag).exec ('*' :: p) = true := Loop.exec_done _ rfl

/-- One value, and the way to the next entry. -/
theorem exec_value {c : Char} {t v rest : List Char} {q : Bool} (hc : isEtagSep c = false)
    (hstar : c ≠ '*') (hq : etagQuote (etagWeak (c :: t)) = (q, v ++ rest))
    (hv : v.all isEtagValue = true) (hrest : ∀ d ∈ rest.head?, isEtagValue d = false) :
    (etagLoop etag).exec (c :: t) = (etagValueMatches v etag ||
      (etagLoop etag).exec ((if q then (etagQuote rest).2 else rest).dropWhile (· != ','))) := by
  have hvalue : ∀ x ∈ v, isEtagValue x = true := List.all_eq_true.mp hv
  have hstop : rest.takeWhile isEtagValue = [] ∧ rest.dropWhile isEtagValue = rest := by
    cases rest with
    | nil => exact ⟨rfl, rfl⟩
    | cons d r =>
      have hd := hrest d rfl
      exact ⟨List.takeWhile_cons_of_neg (by simp [hd]), List.dropWhile_cons_of_neg (by simp [hd])⟩
  have htake : (v ++ rest).takeWhile isEtagValue = v := by
    rw [List.takeWhile_append_of_pos hvalue, hstop.1, List.append_nil]
  have hdrop : (v ++ rest).dropWhile isEtagValue = rest := by
    rw [List.dropWhile_append_of_pos hvalue, hstop.2]
  have hstep : (etagLoop etag).step (c :: t) = if etagValueMatches v etag then .inr true else
      .inl ((if q then (etagQuote rest).2 else rest).dropWhile (· != ',')) := by
    change etagEntry etag (c :: t) = _
    rw [etagEntry, List.dropWhile_cons_of_neg (by simp [hc])]
    simp only [hstar, if_false, hq, htake, hdrop]
  cases hm : etagValueMatches v etag with
  | true =>
    rw [hm, if_pos rfl] at hstep
    rw [Loop.exec_done _ hstep, Bool.true_or]
  | false =>
    rw [hm, if_neg Bool.false_ne_true] at hstep
    rw [Loop.exec_next _ hstep, Bool.false_or]

theorem EndsElement.head {p : List Char} (h : EndsElement p) :
    ∀ d ∈ p.head?, isEtagValue d = false := by
  rcases h with rfl | ⟨t, rfl⟩
  · simp
  · rintro d hd
    obtain rfl := Option.some.inj hd
    rfl

theorem EndsElement.quote {p : List Char} (h : EndsElement p) : etagQuote p = (false, p) := by
  rcases h with rfl | ⟨t, rfl⟩
  · rfl
  · rfl

theorem blank_ne {bs : List Char} (hbs : bs.all isEtagBlank = true) :
    ∀ b ∈ bs, b ≠ ',' ∧ b ≠ '"' ∧ b ≠ '*' ∧ isEtagValue b = true := by
  intro b hb
  have hblank := List.all_eq_true.mp hbs b hb
  rcases Bool.or_eq_true_iff.mp hblank with h | h
  · obtain rfl := beq_iff_eq.mp h
    decide
  · obtain rfl := beq_iff_eq.mp h
    decide

/-- What is skipped behind a value. -/
theorem dropWhile_comma {s p : List Char} (hs : ',' ∉ s) (h : EndsElement p) :
    (s ++ p).dropWhile (· != ',') = p := by
  rw [List.dropWhile_append_of_pos fun c hc => by simpa using ne_of_mem_of_not_mem hc hs]
  rcases h with rfl | ⟨t, rfl⟩
  · rfl
  · rfl

theorem blank_not_digit {b : Char} (hb : isEtagBlank b = true) :
    etagFold b ∉ "0123456789ABCDEF".toList := by
  rcases Bool.or_eq_true_iff.mp hb with h | h
  · obtain rfl := beq_iff_eq.mp h
    decide
  · obtain rfl := beq_iff_eq.mp h
    decide

theorem valueMatches_iff (hetag : IsEtag etag) {v : List Char} :
    etagValueMatches v etag = true ↔ ETAG_LEN ≤ v.length ∧
      (v.take ETAG_LEN).map etagFold = etag ∧ (v.drop ETAG_LEN).all isEtagBlank = true := by
  have htake : etag.take ETAG_LEN = etag := List.take_of_length_le (Nat.le_of_eq hetag.length)
  rw [etagValueMatches, Bool.and_eq_true, Bool.and_eq_true, decide_eq_true_eq, beq_iff_eq, htake,
    map_etagFold hetag.digits, and_assoc]

/-- Blanks behind a value are padding. -/
theorem valueMatches_append (hetag : IsEtag etag) {bs : List Char}
    (hbs : bs.all isEtagBlank = true) (v : List Char) :
    etagValueMatches (v ++ bs) etag = etagValueMatches v etag := by
  rw [Bool.eq_iff_iff, valueMatches_iff hetag, valueMatches_iff hetag]
  rcases Nat.lt_or_ge v.length ETAG_LEN with hlt | hle
  · constructor
    · rintro ⟨hlen, hfold, -⟩
      exfalso
      obtain ⟨b, bs, rfl⟩ : ∃ b bs', bs = b :: bs' := by
        apply List.exists_cons_of_length_pos
        rw [List.length_append] at hlen
        omega
      have hmem : etagFold b ∈ etag := by
        rw [← hfold]
        apply List.mem_map_of_mem
        rw [List.take_append, List.mem_append]
        right
        obtain ⟨k, hk⟩ : ∃ k, ETAG_LEN - v.length = k + 1 := ⟨ETAG_LEN - v.length - 1, by omega⟩
        rw [hk, List.take_succ_cons]
        exact List.mem_cons_self
      exact blank_not_digit (Bool.and_eq_true_iff.mp hbs).1 (hetag.digits _ hmem)
    · rintro ⟨hlen, -⟩
      omega
  · rw [List.take_append_of_le_length hle, List.drop_append_of_le_length hle, List.all_append, hbs,
      Bool.and_true, List.length_append]
    have hlen : ETAG_LEN ≤ v.length + bs.length := by omega
    simp [hle, hlen]

theorem valueMatches_blank (hetag : IsEtag etag) {bs : List Char} (hbs : bs.all isEtagBlank = true) :
    etagValueMatches bs etag = false := valueMatches_append hetag hbs []

theorem all_isEtagValue {v : List Char} (hcomma : ',' ∉ v) (hquote : '"' ∉ v) :
    v.all isEtagValue = true := by
  rw [List.all_eq_true]
  intro c hc
  simp [isEtagValue, ne_of_mem_of_not_mem hc hcomma, ne_of_mem_of_not_mem hc hquote]

theorem stop_plain {r : List Char} (hr : ∀ d ∈ r.head?, isEtagValue d = false) :
    ∀ d ∈ r.head?, d ≠ 'W' ∧ d ≠ '/' := by
  intro d hd
  constructor
  · rintro rfl
    exact absurd (hr _ hd) (by decide)
  · rintro rfl
    exact absurd (hr _ hd) (by decide)

theorem etagWeak_suffix (u : List Char) : etagWeak u <:+ u := by
  unfold etagWeak
  split
  · exact ⟨['W', '/'], rfl⟩
  · exact List.suffix_rfl

theorem etagWeak_strong {u : List Char} (h : ¬ ['W', '/'] <+: u) : etagWeak u = u := by
  rw [etagWeak]
  rintro p rfl
  exact h ⟨p, rfl⟩

theorem etagWeak_append {u r : List Char} (hr : ∀ d ∈ r.head?, d ≠ 'W' ∧ d ≠ '/') :
    etagWeak (u ++ r) = etagWeak u ++ r := by
  by_cases hu : ['W', '/'] <+: u
  · obtain ⟨p, rfl⟩ := hu
    rfl
  · rw [etagWeak_strong hu, etagWeak_strong]
    rintro ⟨p, hp⟩
    match u with
    | [] => exact (hr 'W' (congrArg List.head? hp).symm).1 rfl
    | [c] =>
      obtain ⟨-, rfl⟩ := List.cons.inj hp
      exact (hr '/' rfl).2 rfl
    | c :: c' :: u =>
      have hcons : 'W' :: '/' :: p = c :: c' :: (u ++ r) := hp
      simp only [List.cons.injEq] at hcons
      obtain ⟨rfl, rfl, -⟩ := hcons
      exact hu ⟨u, rfl⟩

theorem etagQuote_value {x : List Char} (hx : x.all isEtagValue = true) (hne : x ≠ [])
    (r : List Char) : etagQuote (x ++ r) = (false, x ++ r) := by
  cases x with
  | nil => exact absurd rfl hne
  | cons c x =>
    rw [etagQuote]
    rintro p hp
    obtain rfl : c = '"' := (List.cons.inj hp).1
    exact absurd (Bool.and_eq_true_iff.mp hx).1 (by decide)

/-- The way from an entry of a piece that is no `*` to the next one. -/
theorem exec_unquoted {c : Char} {u r : List Char} (hu : (c :: u).all isEtagValue = true)
    (hc : isEtagSep c = false) (hstar : c ≠ '*') (hr : ∀ d ∈ r.head?, isEtagValue d = false)
    (hopen : etagWeak (c :: u) ≠ [] ∨ r.head? = some ',') :
    (etagLoop etag).exec (c :: u ++ r) = (etagValueMatches (etagWeak (c :: u)) etag ||
      (etagLoop etag).exec (r.dropWhile (· != ','))) := by
  have hweak : (etagWeak (c :: u)).all isEtagValue = true :=
    List.all_eq_true.mpr fun x hx => List.all_eq_true.mp hu x ((etagWeak_suffix _).subset hx)
  have hquote : etagQuote (etagWeak (c :: (u ++ r))) = (false, etagWeak (c :: u) ++ r) := by
    rw [← List.cons_append, etagWeak_append (stop_plain hr)]
    by_cases hne : etagWeak (c :: u) = []
    · obtain ⟨d, r, rfl⟩ : ∃ d r', r = d :: r' := by
        cases r with
        | nil => simp [hne] at hopen
        | cons d r => exact ⟨d, r, rfl⟩
      obtain rfl : d = ',' := by simpa [hne] using hopen
      rw [hne]
      rfl
    · exact etagQuote_value hweak hne r
  rw [List.cons_append, exec_value hc hstar hquote hweak hr, if_neg Bool.false_ne_true]

/-- A `"` is taken for an opening one, and what is behind it up to the comma for its value. -/
theorem exec_stray_quote (hetag : IsEtag etag) {w trail p : List Char} (hw : etagWeak w = [])
    (htrail : trail.all isEtagBlank = true) (hp : EndsElement p) :
    (etagLoop etag).exec (w ++ '"' :: (trail ++ p)) = (etagLoop etag).exec p := by
  have htrailv : trail.all isEtagValue = true :=
    List.all_eq_true.mpr fun x hx => (blank_ne htrail x hx).2.2.2
  have hquote : ∀ c t, w ++ '"' :: (trail ++ p) = c :: t →
      etagQuote (etagWeak (c :: t)) = (true, trail ++ p) := by
    intro c t hct
    rw [← hct, etagWeak_append (by simp), hw]
    rfl
  have hrest : ∀ c t, w ++ '"' :: (trail ++ p) = c :: t → isEtagSep c = false → c ≠ '*' →
      (etagLoop etag).exec (w ++ '"' :: (trail ++ p)) = (etagLoop etag).exec p := by
    intro c t hct hc hstar
    rw [hct, exec_value hc hstar (hquote c t hct) htrailv hp.head,
      valueMatches_blank hetag htrail, Bool.false_or, if_pos rfl, hp.quote]
    exact congrArg _ (dropWhile_comma (s := []) (by simp) hp)
  by_cases hpre : ['W', '/'] <+: w
  · obtain ⟨w', rfl⟩ := hpre
    exact hrest 'W' _ rfl (by decide) (by decide)
  · rw [etagWeak_strong hpre] at hw
    subst hw
    exact hrest '"' _ rfl (by decide) (by decide)

/-- A piece is blanks, and then nothing, `*` or the front of an entry. -/
theorem piece_cases {w : List Char} (hw : w.all isEtagValue = true) :
    ∃ bs u, w = bs ++ u ∧ bs.all isEtagBlank = true ∧ u.all isEtagValue = true ∧
      pieceHits etag w = (u.head? == some '*' || etagValueMatches (etagWeak u) etag) ∧
      ∀ c ∈ u.head?, isEtagSep c = false := by
  refine ⟨w.takeWhile isEtagBlank, w.dropWhile isEtagBlank,
    (List.takeWhile_append_dropWhile).symm, List.all_takeWhile, ?_, rfl, ?_⟩
  · exact List.all_eq_true.mpr fun x hx =>
      List.all_eq_true.mp hw x ((List.dropWhile_suffix _).subset hx)
  · intro c hc
    have hmem : c ∈ w := (List.dropWhile_suffix _).subset (List.mem_of_mem_head? hc)
    have hvalue := List.all_eq_true.mp hw c hmem
    have hblank := List.head?_dropWhile_not isEtagBlank w
    rw [Option.mem_def.mp hc] at hblank
    have hcomma : c ≠ ',' := by
      rintro rfl
      exact absurd hvalue (by decide)
    have hblank' : isEtagBlank c = false := by simpa using hblank
    rw [isEtagBlank] at hblank'
    rw [isEtagSep, hblank', Bool.false_or]
    simpa using hcomma

theorem valueMatches_nil : etagValueMatches [] etag = false := rfl

/-- Behind a comma inside the quotes, up to the next one. -/
theorem exec_piece_comma {w : List Char} (hw : w.all isEtagValue = true) (t : List Char) :
    (etagLoop etag).exec (w ++ ',' :: t) = (pieceHits etag w || (etagLoop etag).exec t) := by
  obtain ⟨bs, u, rfl, hbs, hu, hhits, hsep⟩ := @piece_cases etag w hw
  have hcomma : isEtagSep ',' = true := by decide
  rw [hhits, List.append_assoc, exec_blanks hbs]
  cases u with
  | nil => exact exec_sep hcomma t
  | cons c u =>
    by_cases hstar : c = '*'
    · subst hstar
      exact exec_star _
    · rw [exec_unquoted hu (hsep c rfl) hstar (by simp [isEtagValue]) (Or.inr rfl)]
      have hno : ((c :: u).head? == some '*') = false := by simpa using hstar
      rw [hno, Bool.false_or]
      exact congrArg _ (exec_sep hcomma t)

/-- The last piece, up to the closing quote and behind it. -/
theorem exec_piece_quote (hetag : IsEtag etag) {w trail p : List Char}
    (hw : w.all isEtagValue = true) (htrail : trail.all isEtagBlank = true) (hp : EndsElement p) :
    (etagLoop etag).exec (w ++ '"' :: (trail ++ p)) =
      (pieceHits etag w || (etagLoop etag).exec p) := by
  obtain ⟨bs, u, rfl, hbs, hu, hhits, hsep⟩ := @piece_cases etag w hw
  rw [hhits, List.append_assoc, exec_blanks hbs]
  by_cases hopen : etagWeak u = []
  · rw [exec_stray_quote hetag hopen htrail hp, hopen, valueMatches_nil, Bool.or_false]
    have hno : (u.head? == some '*') = false := by
      by_contra hstar
      have hhead : u.head? = some '*' := by simpa using hstar
      obtain ⟨u, rfl⟩ := List.head?_eq_some_iff.mp hhead
      rw [etagWeak_strong (by simp)] at hopen
      contradiction
    rw [hno, Bool.false_or]
  · obtain ⟨c, u, rfl⟩ : ∃ c u', u = c :: u' := by
      cases u with
      | nil => exact absurd rfl hopen
      | cons c u => exact ⟨c, u, rfl⟩
    by_cases hstar : c = '*'
    · subst hstar
      exact exec_star _
    · rw [exec_unquoted hu (hsep c rfl) hstar (by simp [isEtagValue]) (Or.inl hopen)]
      have hno : ((c :: u).head? == some '*') = false := by simpa using hstar
      have hskip : ('"' :: (trail ++ p)).dropWhile (· != ',') = p := by
        rw [← List.cons_append]
        apply dropWhile_comma _ hp
        intro hmem
        rcases List.mem_cons.mp hmem with h | h
        · exact absurd h (by decide)
        · exact (blank_ne htrail ',' h).1 rfl
      rw [hno, Bool.false_or, hskip]

/-- What is left of a quoted value behind a comma in it. -/
theorem exec_inside (hetag : IsEtag etag) {v trail p : List Char} (hv : '"' ∉ v)
    (htrail : trail.all isEtagBlank = true) (hp : EndsElement p) :
    (etagLoop etag).exec (v ++ '"' :: (trail ++ p)) =
      ((v.splitOn ',').any (pieceHits etag) || (etagLoop etag).exec p) := by
  induction hn : v.length using Nat.strongRecOn generalizing v with
  | ind n ih =>
    subst hn
    by_cases hcomma : ',' ∈ v
    · obtain ⟨w, v', rfl, hw⟩ := List.eq_append_cons_of_mem hcomma
      have hvalue : w.all isEtagValue = true :=
        all_isEtagValue hw fun h => hv (List.mem_append_left _ h)
      have hshorter : v'.length < (w ++ ',' :: v').length := by
        rw [List.length_append, List.length_cons]
        omega
      rw [List.append_assoc, List.cons_append, exec_piece_comma hvalue,
        ih v'.length hshorter (fun h => hv (by simp [h])) rfl,
        List.splitOn_append_cons_self_of_not_mem hw, List.any_cons, Bool.or_assoc]
    · rw [exec_piece_quote hetag (all_isEtagValue hcomma hv) htrail hp, List.splitOn_eq_singleton hcomma]
      simp

/-- A quoted tag, from its quote on. -/
theorem exec_quoted (hetag : IsEtag etag) {v trail p : List Char} (hv : '"' ∉ v)
    (htrail : trail.all isEtagBlank = true) (hp : EndsElement p) {c : Char} {t : List Char}
    (hc : isEtagSep c = false) (hstar : c ≠ '*')
    (hq : etagQuote (etagWeak (c :: t)) = (true, v ++ '"' :: (trail ++ p))) :
    (etagLoop etag).exec (c :: t) = (etagValueMatches ((v.splitOn ',').headD []) etag ||
      (v.splitOn ',').tail.any (pieceHits etag) || (etagLoop etag).exec p) := by
  by_cases hcomma : ',' ∈ v
  · obtain ⟨w, v', rfl, hw⟩ := List.eq_append_cons_of_mem hcomma
    have hwv := all_isEtagValue hw fun h => hv (List.mem_append_left _ h)
    rw [List.append_assoc, List.cons_append] at hq
    rw [exec_value hc hstar hq hwv (by simp [isEtagValue]), if_pos rfl,
      List.splitOn_append_cons_self_of_not_mem hw, List.headD_cons, List.tail_cons, Bool.or_assoc,
      ← exec_inside hetag (fun h => hv (by simp [h])) htrail hp]
    exact congrArg _ (exec_sep (by decide) _)
  · rw [exec_value hc hstar hq (all_isEtagValue hcomma hv) (by simp [isEtagValue]), if_pos rfl,
      List.splitOn_eq_singleton hcomma, List.headD_cons, List.tail_cons, List.any_nil,
      Bool.or_false]
    have hskip := dropWhile_comma (fun h => (blank_ne htrail ',' h).1 rfl) hp
    exact congrArg (fun q => _ || (etagLoop etag).exec q) hskip

/-- A bare tag that does not begin with `*`. -/
theorem exec_bare (hetag : IsEtag etag) {v trail p : List Char} (hv : v.all isEtagValue = true)
    (htrail : trail.all isEtagBlank = true) (hp : EndsElement p) {c : Char} {t : List Char}
    (hc : isEtagSep c = false) (hstar : c ≠ '*') (hq : etagWeak (c :: t) = v ++ (trail ++ p)) :
    (etagLoop etag).exec (c :: t) = (etagValueMatches v etag || (etagLoop etag).exec p) := by
  have hvalue : (v ++ trail).all isEtagValue = true := by
    rw [List.all_append, hv, Bool.true_and]
    exact List.all_eq_true.mpr fun x hx => (blank_ne htrail x hx).2.2.2
  have hquote : etagQuote (etagWeak (c :: t)) = (false, v ++ trail ++ p) := by
    rw [hq, ← List.append_assoc]
    by_cases hne : v ++ trail = []
    · rw [hne]
      exact hp.quote
    · exact etagQuote_value hvalue hne p
  rw [exec_value hc hstar hquote hvalue hp.head, valueMatches_append hetag htrail,
    if_neg Bool.false_ne_true]
  exact congrArg (fun q => _ || (etagLoop etag).exec q) (dropWhile_comma (s := []) (by simp) hp)

theorem blanks_plain {trail p : List Char} (htrail : trail.all isEtagBlank = true)
    (hp : EndsElement p) : ∀ d ∈ (trail ++ p).head?, d ≠ 'W' ∧ d ≠ '/' := by
  cases trail with
  | nil => exact stop_plain hp.head
  | cons b bs =>
    rintro d hd
    obtain rfl := Option.some.inj hd
    constructor
    · rintro rfl
      exact absurd (Bool.and_eq_true_iff.mp htrail).1 (by decide)
    · rintro rfl
      exact absurd (Bool.and_eq_true_iff.mp htrail).1 (by decide)

theorem bare_value {v : List Char} (hv : v.all isBareChar = true) :
    v.all isEtagValue = true ∧ ∀ c ∈ v, isEtagSep c = false := by
  rw [List.all_eq_true] at hv ⊢
  constructor
  · intro c hc
    exact (Bool.and_eq_true_iff.mp (hv c hc)).1
  · intro c hc
    have hbare := hv c hc
    simp only [isBareChar, isEtagValue, isEtagBlank, Bool.and_eq_true, bne_iff_ne, ne_eq,
      Bool.not_eq_true', Bool.or_eq_false_iff, beq_eq_false_iff_ne] at hbare
    simp [isEtagSep, hbare]

/-- An element up to the comma behind it. -/
theorem exec_element (hetag : IsEtag etag) (l : ListedTag) {p : List Char} (hp : EndsElement p) :
    (etagLoop etag).exec (l.text ++ p) = (l.element.hits etag || (etagLoop etag).exec p) := by
  obtain ⟨lead, ⟨weak, q, v, hquoted, hbare, hstrong⟩, trail, hlead, htrail⟩ := l
  simp only [ListedTag.text, TagElement.text, TagElement.body, TagElement.hits, List.append_assoc]
  rw [exec_blanks hlead]
  cases q with
  | true =>
    have hv := hquoted rfl
    cases weak with
    | true =>
      simp only [if_true, List.cons_append, List.append_assoc]
      exact exec_quoted hetag hv htrail hp (by decide) (by decide) rfl
    | false =>
      simp only [if_true, Bool.false_eq_true, if_false, List.cons_append, List.append_assoc,
        List.nil_append]
      exact exec_quoted hetag hv htrail hp (by decide) (by decide) rfl
  | false =>
    obtain ⟨hv, hsep⟩ := bare_value (hbare rfl)
    cases weak with
    | true =>
      simp only [if_true, Bool.false_eq_true, if_false, List.cons_append, Bool.not_true,
        Bool.false_and, Bool.false_or]
      exact exec_bare hetag hv htrail hp (by decide) (by decide) rfl
    | false =>
      simp only [Bool.false_eq_true, if_false, Bool.not_false, Bool.true_and]
      cases v with
      | nil =>
        rw [List.nil_append, exec_blanks htrail]
        rfl
      | cons c v =>
        by_cases hstar : c = '*'
        · subst hstar
          exact exec_star _
        · have hno : ((c :: v).head? == some '*') = false := by simpa using hstar
          rw [hno, Bool.false_or]
          apply exec_bare hetag hv htrail hp (hsep c List.mem_cons_self) hstar
          calc
            etagWeak (c :: v ++ (trail ++ p)) = etagWeak (c :: v) ++ (trail ++ p) :=
              etagWeak_append (blanks_plain htrail hp)
            _ = c :: v ++ (trail ++ p) := by rw [etagWeak_strong (hstrong rfl rfl)]

end Scan

section
variable {etag : List Char}

theorem same_no_comma (hetag : IsEtag etag) {v : List Char}
    (h : v.map etagFold = etag.map etagFold) : ',' ∉ v := by
  intro hmem
  have hfold := List.mem_map_of_mem (f := etagFold) hmem
  rw [h, map_etagFold hetag.digits] at hfold
  exact absurd (hetag.digits _ hfold) (by decide)

theorem valueMatches_same (hetag : IsEtag etag) {v : List Char}
    (h : v.map etagFold = etag.map etagFold) : etagValueMatches v etag = true := by
  have hlen : v.length = ETAG_LEN := by
    rw [← hetag.length, ← List.length_map (f := etagFold), h, List.length_map]
  rw [valueMatches_iff hetag, List.take_of_length_le (Nat.le_of_eq hlen),
    List.drop_of_length_le (Nat.le_of_eq hlen), h, map_etagFold hetag.digits]
  exact ⟨Nat.le_of_eq hlen.symm, rfl, rfl⟩

/-- A value without blanks is the stamp or not. -/
theorem valueMatches_bare (hetag : IsEtag etag) {v : List Char}
    (hv : ∀ c ∈ v, isEtagBlank c = false) (h : etagValueMatches v etag = true) :
    v.map etagFold = etag.map etagFold := by
  obtain ⟨hlen, hfold, hblank⟩ := (valueMatches_iff hetag).mp h
  have hnil : v.drop ETAG_LEN = [] := by
    rw [List.eq_nil_iff_forall_not_mem]
    intro c hc
    have hb := List.all_eq_true.mp hblank c hc
    rw [hv c (List.mem_of_mem_drop hc)] at hb
    contradiction
  rw [map_etagFold hetag.digits, ← hfold, List.take_of_length_le (List.drop_eq_nil_iff.mp hnil)]

theorem TagElement.text_eq_star {e : TagElement} :
    e.text = ['*'] ↔ e.weak = false ∧ e.quoted = false ∧ e.value = ['*'] := by
  obtain ⟨weak, q, v, -, -, -⟩ := e
  cases weak <;> cases q <;> simp [TagElement.text, TagElement.body]

theorem TagElement.hits_iff (hetag : IsEtag etag) (e : TagElement) :
    e.hits etag = true ↔ e.Matches etag ∨ e.Misread etag := by
  rw [TagElement.Matches, TagElement.text_eq_star, TagElement.hits, TagElement.Misread]
  cases hq : e.quoted with
  | true =>
    simp only [if_true, Bool.true_eq_false, false_and, and_false, false_or, Bool.or_eq_true,
      List.any_eq_true]
    constructor
    · rintro (hfirst | hlater)
      · by_cases hsame : e.value.map etagFold = etag.map etagFold
        · exact Or.inl hsame
        · exact Or.inr (Or.inl ⟨hfirst, hsame⟩)
      · exact Or.inr (Or.inr hlater)
    · rintro (hsame | ⟨hfirst, -⟩ | hlater)
      · left
        rw [List.splitOn_eq_singleton (same_no_comma hetag hsame)]
        exact valueMatches_same hetag hsame
      · exact Or.inl hfirst
      · exact Or.inr hlater
  | false =>
    have hbare := e.bare_ok hq
    have hblank : ∀ c ∈ e.value, isEtagBlank c = false := by
      intro c hc
      have hc' := (Bool.and_eq_true_iff.mp (List.all_eq_true.mp hbare c hc)).2
      simpa using hc'
    simp only [Bool.false_eq_true, if_false, true_and, Bool.or_eq_true, Bool.and_eq_true,
      Bool.not_eq_true', beq_iff_eq]
    constructor
    · rintro (⟨hweak, hhead⟩ | hsame)
      · by_cases hstar : e.value = ['*']
        · exact Or.inl (Or.inl ⟨hweak, hstar⟩)
        · exact Or.inr ⟨hweak, hhead, hstar⟩
      · exact Or.inl (Or.inr (valueMatches_bare hetag hblank hsame))
    · rintro ((⟨hweak, hstar⟩ | hsame) | ⟨hweak, hhead, -⟩)
      · exact Or.inl ⟨hweak, by rw [hstar]; rfl⟩
      · exact Or.inr (valueMatches_same hetag hsame)
      · exact Or.inl ⟨hweak, hhead⟩

end

theorem exec_tagList {etag : List Char} (hetag : IsEtag etag) (ls : List ListedTag) :
    (etagLoop etag).exec (tagList ls) = ls.any fun l => l.element.hits etag := by
  induction ls with
  | nil => exact exec_end
  | cons l ls ih =>
    cases ls with
    | nil =>
      have hone := exec_element hetag l (Or.inl rfl)
      rw [List.append_nil, exec_end] at hone
      simpa [tagList] using hone
    | cons l' ls =>
      have hsplit : tagList (l :: l' :: ls) = l.text ++ ',' :: tagList (l' :: ls) := by
        simp [tagList, List.intercalate_cons_cons]
      rw [hsplit, exec_element hetag l (Or.inr ⟨_, rfl⟩), exec_sep (by decide), ih]
      rfl

/-- **The list of an `If-Match`.** The answer is yes exactly if some element is the wildcard or has
the stamp, for exactly the lists that have such an element or none that is misread. -/
theorem etagMatches_tagList_iff (ctx : EtagCtx) (ls : List ListedTag) :
    (etagMatches (tagList ls) (etagFinal ctx) = true ↔
      ∃ l ∈ ls, l.element.Matches (etagFinal ctx)) ↔
    (∃ l ∈ ls, l.element.Matches (etagFinal ctx)) ∨
      ∀ l ∈ ls, ¬ l.element.Misread (etagFinal ctx) := by
  have hetag := etagFinal_isEtag ctx
  have hexec : etagMatches (tagList ls) (etagFinal ctx) = true ↔
      ∃ l ∈ ls, l.element.Matches (etagFinal ctx) ∨ l.element.Misread (etagFinal ctx) := by
    rw [etagMatches, exec_tagList hetag, List.any_eq_true]
    simp only [TagElement.hits_iff hetag]
  rw [hexec]
  constructor
  · intro h
    by_cases hmatch : ∃ l ∈ ls, l.element.Matches (etagFinal ctx)
    · exact Or.inl hmatch
    · right
      intro l hl hmis
      exact hmatch (h.mp ⟨l, hl, Or.inr hmis⟩)
  · rintro (hmatch | hmis)
    · exact iff_of_true (hmatch.imp fun l hl => ⟨hl.1, Or.inl hl.2⟩) hmatch
    · constructor
      · rintro ⟨l, hl, hm | hm⟩
        · exact ⟨l, hl, hm⟩
        · exact absurd hm (hmis l hl)
      · rintro ⟨l, hl, hm⟩
        exact ⟨l, hl, Or.inl hm⟩

/-- `"x, 0000000000000000"` is one tag, and no stamp of an empty stream. -/
def commaTag : ListedTag where
  lead := []
  element :=
    { weak := false
      quoted := true
      value := "x, 0000000000000000".toList
      quoted_ok := by decide
      bare_ok := by decide
      weak_ok := by decide }
  trail := []
  lead_ok := rfl
  trail_ok := rfl

/-- Text inside the quotes is taken for an element of its own. -/
theorem etagMatches_tagList_misread :
    ¬ ∀ ctx ls, etagMatches (tagList ls) (etagFinal ctx) = true ↔
      ∃ l ∈ ls, l.element.Matches (etagFinal ctx) := by
  intro h
  have hyes : etagMatches (tagList [commaTag]) (etagFinal etagInit) = true := by decide +kernel
  obtain ⟨l, hl, hmatch⟩ := (h etagInit [commaTag]).mp hyes
  obtain rfl := List.mem_singleton.mp hl
  rcases hmatch with hstar | hsame
  · revert hstar
    decide +kernel
  · revert hsame
    decide +kernel

end Mvsmf
