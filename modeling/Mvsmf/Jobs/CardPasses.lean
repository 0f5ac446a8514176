import Mvsmf.Jobs.PaddedCards

/-!
# The passes of the rewrite over a card

What each pass does to a card whose operand field is known piece by piece: the credentials are
pieces that go, `NOTIFY=&SYSUID` is a piece that is replaced, and the last card gets a comma behind
its last piece or gives some of its pieces away.
-/

namespace Mvsmf

open Jcl

/-! ## Operands the rewrite looks for -/

def isCredential (p : Text) : Bool := carries USER p || carries PASSWORD p

def isNotify (p : Text) : Bool := carries NOTIFY p

def notifySysuid : Text := NOTIFY ++ '=' :: SYSUID

/-- The first NOTIFY of a card, if its value begins with `&SYSUID`: the caller is put into it. -/
def sysuidPiece (ps : List Text) : Option Text :=
  (ps.find? isNotify).filter (notifySysuid.isPrefixOf ·)

/-- The pieces with the caller in the first NOTIFY. -/
def notifyPieces (user : Text) : List Text → List Text
  | [] => []
  | p :: ps => if isNotify p then (NOTIFY ++ '=' :: user) :: ps else p :: notifyPieces user ps

/-- The piece of the cards that the caller is put into: on the first card that has one. -/
def sysuidTarget (pss : List (List Text)) : Option Text := pss.findSome? sysuidPiece

/-- The pieces of the cards with the caller put in. -/
def notifyAll (user : Text) : List (List Text) → List (List Text)
  | [] => []
  | ps :: pss =>
    if (sysuidPiece ps).isSome then notifyPieces user ps :: pss else ps :: notifyAll user pss

/-- What the passes leave of the pieces of the cards. -/
def leftPieces (user : Text) (pss : List (List Text)) : List Text :=
  (notifyAll user (pss.map (·.filter (!isCredential ·)))).flatten

/-- The operand with the caller for `&SYSUID`. -/
def sysuidTo (user p : Text) : Text := if p = notifySysuid then NOTIFY ++ '=' :: user else p

/-! ## Cards that keep some of their pieces -/

theorem length_render_filter (f : Text → Bool) (m : Bool) (ps : List Text) :
    (render m (ps.filter f)).length ≤ (render m ps).length := by
  induction ps with
  | nil => simp
  | cons p ps ih =>
    by_cases hf : f p = true
    · rw [List.filter_cons_of_pos hf]
      by_cases hps : ps = []
      · subst hps
        rfl
      · rw [render_cons m p hps]
        by_cases hfil : ps.filter f = []
        · rw [hfil, render_singleton]
          cases m <;> simp
        · rw [render_cons m p hfil]
          simpa using ih
    · rw [List.filter_cons_of_neg hf]
      by_cases hps : ps = []
      · subst hps
        simp
      · rw [render_cons m p hps, List.length_append, List.length_cons]
        omega

/-- The last character of rendered pieces is that of the last piece. -/
theorem endsInComma_render_false {ps : List Text} (hp : ∀ p ∈ ps, isPiece false p = true)
    (hlast : ps.getLast? ≠ some []) : endsInComma (render false ps) = false := by
  rcases List.eq_nil_or_concat ps with rfl | ⟨as, a, rfl⟩
  · rfl
  · rw [List.concat_eq_append] at hp hlast ⊢
    have ha : a ≠ [] := by simpa using hlast
    rcases List.eq_nil_or_concat a with rfl | ⟨x, c, rfl⟩
    · exact absurd rfl ha
    · rw [List.concat_eq_append] at hp ⊢
      have hc := (getLast_of_isPiece (hp (x ++ [c]) (by simp))).1
      rw [render_append false as (by simp)]
      simpa [endsInComma, ← List.append_assoc] using hc

theorem render_ne_nil {m : Bool} {ps : List Text} (hne : ps ≠ [])
    (hlast : m = false → ps.getLast? ≠ some []) : render m ps ≠ [] := by
  rcases List.eq_nil_or_concat ps with rfl | ⟨as, a, rfl⟩
  · exact absurd rfl hne
  · rw [List.concat_eq_append] at hlast ⊢
    rw [render_append m as (by simp)]
    cases m with
    | true => simp
    | false =>
      have ha : a ≠ [] := by simpa using hlast rfl
      simp [ha]

/-- A card with other pieces that take no more room. -/
theorem fits_of_pieces {c : Card} {m m' : Bool} (h : c.Fits m) {ps : List Text}
    (hp : ∀ p ∈ ps, isPiece false p = true) (hne : ps ≠ [])
    (hlast : m' = false → ps.getLast? ≠ some [])
    (hlen : (c.lead ++ render m' ps).length ≤ lastColumn) :
    ({ c with ps := ps } : Card).Fits m' := by
  refine ⟨hp, render_ne_nil hne hlast, hlen, h.tail, ?_⟩
  cases m' with
  | true => exact endsInComma_render_true hne
  | false => exact endsInComma_render_false hp (hlast rfl)

/-! ## Stripping -/

/-- The card without its credentials. -/
def stripCard (c : Card) : Card := { c with ps := c.ps.filter (!isCredential ·) }

/-- What the strip relies on: the search passes over the lead, a credential is a piece of its own,
and the comment names no keyword. -/
structure Strippable (m : Bool) (c : Card) : Prop where
  skips : ∀ k, IsKeyword k → Skips k c.lead
  lead : c.lead.getLast? = some ' '
  bare : ∀ p ∈ c.ps, isCredential p = true → bare p = true
  quiet : ∀ k ∈ [USER, PASSWORD, NOTIFY], Quiet m k c.tail

theorem stripCredentials_text {c : Card} {m : Bool} (h : Strippable m c) (hf : c.Fits m) :
    (stripCredentials (c.text m)).1 = (stripCard c).text m := by
  have huser := jobcardStripOperand_render isKeyword_user.name (h.skips _ isKeyword_user) h.lead hf.pieces
    (fun p hp hc => h.bare p hp (by simp [isCredential, hc])) m (h.quiet USER (by simp))
  have hkept : ∀ p ∈ c.ps.filter (!carries USER ·), isPiece false p = true :=
    fun p hp => hf.pieces p (List.mem_of_mem_filter hp)
  have hpass := jobcardStripOperand_render isKeyword_password.name (h.skips _ isKeyword_password) h.lead
    hkept (fun p hp hc => h.bare p (List.mem_of_mem_filter hp) (by simp [isCredential, hc])) m
    (h.quiet PASSWORD (by simp))
  simp only [stripCredentials, Card.text, huser, hpass, stripCard, List.filter_filter]
  congr 3
  apply List.filter_congr
  intro p _
  simp [isCredential, Bool.and_comm]

theorem jobcardOperandsEmpty_indent {lead : Text} (h : IsIndent lead) (t : Text) :
    jobcardOperandsEmpty (lead ++ t) = (t.dropWhile (· == ' ') == []) := by
  obtain ⟨n, -, -, rfl⟩ := h
  have hpre : "//".toList.isPrefixOf ("//".toList ++ List.replicate n ' ' ++ t) = true := by simp
  rw [jobcardOperandsEmpty, hpre]
  simp only [if_true, String.reduceToList, List.cons_append, List.nil_append, List.drop_succ_cons,
    List.drop_zero]
  rw [List.dropWhile_append_of_pos (by simp)]

/-- A line of the card with the operands that are left, blank if there are none. -/
def lineOf (m : Bool) (c : Card) : Text := if c.ps = [] then [] else c.text m

theorem stripContinuation_text {c : Card} {m : Bool} (h : Strippable m c) (hf : c.Fits m)
    (hl : IsIndent c.lead) (hkeep : (stripCard c).ps ≠ [] → (stripCard c).Fits m)
    (hblank : (stripCard c).ps = [] → ∀ x ∈ c.tail, x = ' ') :
    stripContinuation (c.text m) = lineOf m (stripCard c) := by
  rw [stripContinuation, stripCredentials_text h hf, lineOf, Card.text,
    jobcardOperandsEmpty_indent (show IsIndent (stripCard c).lead from hl)]
  by_cases hps : (stripCard c).ps = []
  · have htail : (render m (stripCard c).ps ++ (stripCard c).tail).dropWhile (· == ' ') = [] := by
      rw [hps, render_nil, List.nil_append, List.dropWhile_eq_nil_iff]
      intro x hx
      simpa using hblank hps x hx
    rw [htail, if_pos hps]
    rfl
  · have hkept := (hkeep hps).dropWhile (stripCard c).tail 0
    rw [List.replicate_zero, List.nil_append] at hkept
    have hne : render m (stripCard c).ps ++ (stripCard c).tail ≠ [] := by
      simp [(hkeep hps).solid]
    rw [hkept, if_neg hps, if_neg (by simpa using hne)]

/-! ## NOTIFY -/

theorem findNotify_none {c : Card} {m : Bool} (h : Strippable m c) (hf : c.Fits m)
    (hno : ∀ p ∈ c.ps, isNotify p = false) : findNotifyOperand (c.text m) = none := by
  have := find_render_none isKeyword_notify.name (h.skips _ isKeyword_notify) hf.pieces hno m
    (h.quiet NOTIFY (by simp))
  rw [jobcardFindOperand_eq isKeyword_notify.name] at this
  exact this

theorem findNotify_some {c : Card} {m : Bool} (h : Strippable m c) (hf : c.Fits m)
    {as bs : List Text} {q : Text} (hps : c.ps = as ++ q :: bs) (has : ∀ p ∈ as, isNotify p = false)
    (hq : isNotify q = true) :
    findNotifyOperand (c.text m) = some (c.lead ++ render true as).length := by
  have hfind : jobcardFindOperand (c.lead ++ (render m (as ++ q :: bs) ++ c.tail)) NOTIFY =
      some (c.lead ++ render true as).length :=
    find_render_some isKeyword_notify.name (h.skips _ isKeyword_notify)
      (fun p hp => hf.pieces p (by rw [hps]; simp [hp])) has hq m c.tail
  rw [jobcardFindOperand_eq isKeyword_notify.name, ← hps] at hfind
  exact hfind

theorem not_prefix_behind {k v t : Text} (hk : ∀ c ∈ k, c ≠ ',' ∧ c ≠ ' ')
    (ht : ∀ c ∈ t.head?, c = ',' ∨ c = ' ') (h : ¬ k <+: v) : ¬ k <+: v ++ t := by
  rintro ⟨w, hw⟩
  rcases List.append_eq_append_iff.mp hw with ⟨u, rfl, -⟩ | ⟨u, rfl, hu⟩
  · exact h (List.prefix_append _ _)
  · cases u with
    | nil => exact h (by simp)
    | cons c u =>
      have hc := hk c (by simp)
      rcases ht c (by simp [hu]) with rfl | rfl
      · exact hc.1 rfl
      · exact hc.2 rfl

/-- Blanks to the end, or the comma in front of the next piece. -/
def Follows (t : Text) : Prop := (∀ c ∈ t, c = ' ') ∨ ∃ t', t = ',' :: t'

theorem Follows.head {t : Text} (h : Follows t) : ∀ c ∈ t.head?, c = ',' ∨ c = ' ' := by
  intro c hc
  rcases h with h | ⟨t', rfl⟩
  · exact Or.inr (h c (List.mem_of_mem_head? hc))
  · exact Or.inl (by simpa using hc.symm)

/-- What is put behind the caller's userid is what stood behind the value. -/
theorem Follows.behindSysuid {w t : Text} (hw : ∀ c ∈ w, c ≠ ',' ∧ c ≠ ' ') (h : Follows t)
    (hlen : (w ++ t).length < 79) :
    ∃ after, behindSysuid (w ++ t) = .ok after ∧
      after.rdropWhile (· == ' ') = t.rdropWhile (· == ' ') := by
  have hend : ∃ u, (u = t ∨ u = []) ∧ (u = [] → ∀ c ∈ t, c = ' ') ∧
      ((w ++ t).dropWhile (· == ' ')).dropWhile (fun c => c != ',' && c != ' ') = u := by
    cases w with
    | nil =>
      rw [List.nil_append]
      rcases h with h | ⟨t', rfl⟩
      · refine ⟨[], Or.inr rfl, fun _ => h, ?_⟩
        have hskip : t.dropWhile (· == ' ') = [] := by
          rw [List.dropWhile_eq_nil_iff]
          simpa using h
        rw [hskip]
        rfl
      · exact ⟨',' :: t', Or.inl rfl, fun h => absurd h (List.cons_ne_nil _ _), rfl⟩
    | cons c w =>
      refine ⟨t, Or.inl rfl, ?_, ?_⟩
      · rintro rfl
        exact List.forall_mem_nil _
      · have hc : ¬ (c == ' ') = true := by simpa using (hw c List.mem_cons_self).2
        have hall : ∀ x ∈ c :: w, (x != ',' && x != ' ') = true := by
          intro x hx
          simpa using hw x hx
        rw [List.cons_append, List.dropWhile_cons_of_neg (p := (· == ' ')) hc, ← List.cons_append,
          List.dropWhile_append_of_pos hall]
        cases t with
        | nil => rfl
        | cons x t =>
          have hx := h.head x rfl
          rw [List.dropWhile_cons_of_neg]
          rcases hx with rfl | rfl
          · decide
          · decide
  obtain ⟨u, hu, hnil, hend⟩ := hend
  rw [behindSysuid_eq hlen, hend]
  refine ⟨_, rfl, ?_⟩
  have hblank (hall : ∀ c ∈ t, c = ' ') : t.rdropWhile (· == ' ') = [] := by
    rw [List.rdropWhile_eq_nil_iff]
    simpa using hall
  rcases hu with rfl | rfl
  · rcases h with h | ⟨t', rfl⟩
    · have hskip : u.dropWhile (· == ' ') = [] := by
        rw [List.dropWhile_eq_nil_iff]
        simpa using h
      have hhead : u.head? ≠ some ',' := by
        intro hc
        have := h ',' (List.mem_of_mem_head? hc)
        contradiction
      rw [separated, if_neg hhead, if_pos hskip, hblank h]
      rfl
    · simp [separated]
  · rw [hblank (hnil rfl)]
    rfl

theorem replaceSysuid_piece {q t : Text} (x user : Text) (hq : isNotify q = true)
    (hp : isPiece false q = true) (hbare : notifySysuid <+: q → bare q = true)
    (ht : Follows t) (hlen : (x ++ (q ++ t)).length ≤ 80) :
    replaceSysuid (x ++ (q ++ t)) user x.length =
      if notifySysuid <+: q then
        if (x ++ (NOTIFY ++ '=' :: user ++ t.rdropWhile (· == ' '))).length ≥ 72 then .error .tooLong
        else .ok (some (x ++ (NOTIFY ++ '=' :: user ++ t.rdropWhile (· == ' '))))
      else .ok none := by
  obtain ⟨v, rfl⟩ : ∃ v, NOTIFY ++ ['='] ++ v = q := List.isPrefixOf_iff_prefix.mp hq
  have hkey : ((x ++ (NOTIFY ++ ['='] ++ v ++ t)).drop x.length).dropWhile (· != '=') =
      '=' :: (v ++ t) := by
    rw [List.drop_left]
    rfl
  have hsys : notifySysuid <+: NOTIFY ++ ['='] ++ v ↔ SYSUID <+: v := by
    rw [notifySysuid, List.append_assoc, List.prefix_append_right_inj, List.singleton_append,
      List.cons_prefix_cons]
    exact and_iff_right rfl
  have hv : isPiece false v = true := hp
  rw [replaceSysuid, hkey]
  simp only [List.drop_one, List.tail_cons, List.take_left]
  have hchars : ∀ c ∈ SYSUID, c ≠ ',' ∧ c ≠ ' ' := List.all_iff_forall_prop.mp rfl
  by_cases hyes : SYSUID <+: v
  · have hb := hbare (hsys.mpr hyes)
    obtain ⟨w, rfl⟩ := hyes
    have hw : ∀ c ∈ w, c ≠ ',' ∧ c ≠ ' ' := by
      intro c hc
      have := List.all_eq_true.mp hb c (by simp [hc])
      simpa using this
    have hlen' : (w ++ t).length < 79 := by
      simp only [List.length_append] at hlen ⊢
      have h7 : SYSUID.length = 7 := rfl
      omega
    obtain ⟨after, hafter, hdrop⟩ := ht.behindSysuid hw hlen'
    have hskip : (SYSUID ++ w ++ t).dropWhile (· == ' ') = SYSUID ++ (w ++ t) := by
      rw [List.append_assoc]
      rfl
    have hpre : SYSUID.isPrefixOf (SYSUID ++ (w ++ t)) = true := by simp
    rw [if_pos (hsys.mpr (List.prefix_append _ _)), hskip, hpre, List.drop_left, hafter]
    simp only [if_true, hdrop, List.append_assoc]
  · have hskip : ¬ SYSUID <+: (v ++ t).dropWhile (· == ' ') := by
      cases v with
      | nil =>
        rcases ht with hblank | ⟨t', rfl⟩
        · have hnil : ([] ++ t).dropWhile (· == ' ') = [] := by
            rw [List.dropWhile_eq_nil_iff]
            simpa using hblank
          rw [hnil]
          decide
        · exact not_prefix_behind hchars (by simp) hyes
      | cons c v =>
        have hc : c ≠ ' ' := by
          rintro rfl
          simp [isPiece] at hv
        rw [List.cons_append, List.dropWhile_cons_of_neg (by simpa using hc)]
        exact not_prefix_behind hchars ht.head hyes
    have hpre : SYSUID.isPrefixOf ((v ++ t).dropWhile (· == ' ')) = false := by
      rw [Bool.eq_false_iff]
      exact fun h => hskip (List.isPrefixOf_iff_prefix.mp h)
    rw [if_neg fun h => hyes (hsys.mp h), hpre]
    rfl

/-- The last piece of a card that is not continued is not empty. -/
theorem getLast_of_fits {c : Card} {m : Bool} (h : c.Fits m) :
    m = false → c.ps.getLast? ≠ some [] := by
  rintro rfl hlast
  rcases List.eq_nil_or_concat c.ps with hps | ⟨as, a, hps⟩
  · rw [hps] at hlast
    cases hlast
  · rw [List.concat_eq_append] at hps
    obtain rfl : a = [] := by simpa [hps] using hlast
    have hsolid := h.solid
    have hcomma := h.comma
    rw [hps, render_append false as (by simp)] at hsolid hcomma
    by_cases has : as = []
    · simp [has] at hsolid
    · simp [endsInComma_render_true has] at hcomma

theorem rdropWhile_render {m : Bool} {ps : List Text} (hp : ∀ p ∈ ps, isPiece false p = true)
    (hlast : m = false → ps.getLast? ≠ some []) :
    (render m ps).rdropWhile (· == ' ') = render m ps := by
  rcases List.eq_nil_or_concat ps with rfl | ⟨as, a, rfl⟩
  · rfl
  · rw [List.concat_eq_append] at hp hlast ⊢
    rw [render_append m as (by simp)]
    cases m with
    | true =>
      rw [render_singleton, if_pos rfl, ← List.append_assoc, List.rdropWhile_concat_neg]
      decide
    | false =>
      have ha : a ≠ [] := by simpa using hlast rfl
      rcases List.eq_nil_or_concat a with rfl | ⟨x, c, rfl⟩
      · exact absurd rfl ha
      · rw [List.concat_eq_append] at hp ⊢
        have hc := (getLast_of_isPiece (hp (x ++ [c]) (by simp))).2
        rw [render_singleton, if_neg Bool.false_ne_true, ← List.append_assoc,
          List.rdropWhile_concat_neg]
        simpa using hc

/-- What stands behind a piece of a card: more of the field, or blanks. -/
theorem render_around {m : Bool} (as : List Text) {bs : List Text} {tail : Text}
    (hp : ∀ p ∈ bs, isPiece false p = true) (hlast : bs ≠ [] → m = false → bs.getLast? ≠ some [])
    (htail : m = false → ∀ x ∈ tail, x = ' ') :
    ∃ t, Follows t ∧ ∀ q, render m (as ++ q :: bs) ++ tail = render true as ++ (q ++ t) ∧
      render m (as ++ q :: bs) ++ tail.rdropWhile (· == ' ') =
        render true as ++ (q ++ t.rdropWhile (· == ' ')) := by
  have hcomma : [','].rdropWhile (· == ' ') = [','] := by decide
  by_cases hbs : bs = []
  · subst hbs
    cases m with
    | true =>
      refine ⟨',' :: tail, Or.inr ⟨tail, rfl⟩, fun q => ?_⟩
      have hdrop := Padding.rdropWhile_append_eq hcomma tail
      rw [List.singleton_append] at hdrop
      rw [hdrop, render_append true as (by simp)]
      simp
    | false =>
      refine ⟨tail, Or.inl (htail rfl), fun q => ?_⟩
      rw [render_append false as (by simp)]
      simp
  · refine ⟨',' :: (render m bs ++ tail), Or.inr ⟨_, rfl⟩, fun q => ?_⟩
    have hdrop := Padding.rdropWhile_append_eq hcomma (render m bs ++ tail)
    rw [List.singleton_append, Padding.rdropWhile_append_eq (rdropWhile_render hp (hlast hbs))] at hdrop
    rw [hdrop, render_append m as (by simp), render_cons m q hbs]
    simp

/-- What the pass over NOTIFY relies on. -/
structure Notifiable (c : Card) (m : Bool) : Prop where
  strippable : Strippable m c
  fits : c.Fits m
  length : (c.text m).length ≤ 80
  blank : m = false → ∀ x ∈ c.tail, x = ' '

theorem sysuidPiece_eq {as bs : List Text} {q : Text} (has : ∀ p ∈ as, isNotify p = false)
    (hq : isNotify q = true) :
    sysuidPiece (as ++ q :: bs) = if notifySysuid <+: q then some q else none := by
  have hnone : as.find? isNotify = none := by
    rw [List.find?_eq_none]
    intro p hp
    rw [has p hp]
    exact Bool.false_ne_true
  rw [sysuidPiece, List.find?_append, hnone, Option.none_or, List.find?_cons_of_pos hq,
    Option.filter_some]
  simp only [List.isPrefixOf_iff_prefix]

theorem sysuidPiece_none {ps : List Text} (h : ∀ p ∈ ps, isNotify p = false) :
    sysuidPiece ps = none := by
  have hnone : ps.find? isNotify = none := by
    rw [List.find?_eq_none]
    intro p hp
    rw [h p hp]
    exact Bool.false_ne_true
  rw [sysuidPiece, hnone]
  rfl

theorem notifyPieces_eq (user : Text) {as bs : List Text} {q : Text}
    (has : ∀ p ∈ as, isNotify p = false) (hq : isNotify q = true) :
    notifyPieces user (as ++ q :: bs) = as ++ (NOTIFY ++ '=' :: user) :: bs := by
  induction as with
  | nil => exact if_pos hq
  | cons a as ih =>
    have ha := has a List.mem_cons_self
    rw [List.cons_append, notifyPieces, ha, if_neg Bool.false_ne_true,
      ih fun p hp => has p (List.mem_cons_of_mem _ hp)]
    rfl

/-- A card has no NOTIFY, or a first one. -/
theorem first_notify (ps : List Text) : (∀ p ∈ ps, isNotify p = false) ∨
    ∃ as q bs, ps = as ++ q :: bs ∧ (∀ p ∈ as, isNotify p = false) ∧ isNotify q = true := by
  cases h : ps.find? isNotify with
  | none =>
    left
    intro p hp
    exact Bool.eq_false_iff.mpr (List.find?_eq_none.mp h p hp)
  | some q =>
    obtain ⟨hq, as, bs, rfl, has⟩ := List.find?_eq_some_iff_append.mp h
    exact Or.inr ⟨as, q, bs, rfl, fun p hp => by simpa using has p hp, hq⟩

/-- The card with the caller in its first NOTIFY. -/
def notifyCard (user : Text) (c : Card) : Card :=
  { c with ps := notifyPieces user c.ps, tail := c.tail.rdropWhile (· == ' ') }

theorem notifyCard_text {c : Card} {as bs : List Text} {q user : Text} {m : Bool}
    (hps : c.ps = as ++ q :: bs) (has : ∀ p ∈ as, isNotify p = false) (hq : isNotify q = true) :
    (notifyCard user c).text m = c.lead ++
      (render m (as ++ (NOTIFY ++ '=' :: user) :: bs) ++ c.tail.rdropWhile (· == ' ')) := by
  rw [notifyCard, Card.text, hps, notifyPieces_eq user has hq]

theorem replaceSysuid_card {c : Card} {m : Bool} (h : Notifiable c m) {as bs : List Text} {q : Text}
    (hps : c.ps = as ++ q :: bs) (has : ∀ p ∈ as, isNotify p = false) (hq : isNotify q = true)
    (hbare : notifySysuid <+: q → bare q = true) (user : Text) :
    replaceSysuid (c.text m) user (c.lead ++ render true as).length =
      if notifySysuid <+: q then
        if ((notifyCard user c).text m).length ≥ 72 then .error .tooLong
        else .ok (some ((notifyCard user c).text m))
      else .ok none := by
  have hlast : bs ≠ [] → m = false → bs.getLast? ≠ some [] := by
    intro hbs hm hlast
    apply getLast_of_fits h.fits hm
    rw [hps, List.getLast?_append, List.getLast?_cons, List.getLast?_eq_some_getLast hbs] at *
    simpa using hlast
  obtain ⟨t, ht, htext⟩ := render_around as
    (fun p hp => h.fits.pieces p (by rw [hps]; simp [hp])) hlast h.blank
  have hline : c.text m = (c.lead ++ render true as) ++ (q ++ t) := by
    rw [Card.text, hps, (htext q).1, List.append_assoc]
  have hlen := h.length
  rw [hline] at hlen ⊢
  rw [replaceSysuid_piece _ user hq (h.fits.pieces q (by simp [hps])) hbare ht hlen,
    notifyCard_text hps has hq, (htext _).2, List.append_assoc]

theorem isPiece_keyword {k v : Text} (hk : ∀ c ∈ k, c ≠ '\'' ∧ c ≠ ',' ∧ c ≠ ' ')
    (hv : isPiece false v = true) : isPiece false (k ++ '=' :: v) = true := by
  induction k with
  | nil => simpa [isPiece] using hv
  | cons c k ih =>
    have hc := hk c List.mem_cons_self
    have ih := ih fun x hx => hk x (List.mem_cons_of_mem _ hx)
    simp [isPiece, hc, ih]

theorem notifyCard_fits {c : Card} {m : Bool} (h : Notifiable c m) {user : Text}
    (hu : isPiece false user = true) {as bs : List Text} {q : Text} (hps : c.ps = as ++ q :: bs)
    (has : ∀ p ∈ as, isNotify p = false) (hq : isNotify q = true)
    (hlen : ((notifyCard user c).text m).length < 72) : (notifyCard user c).Fits m := by
  have hnew : (notifyCard user c).ps = as ++ (NOTIFY ++ '=' :: user) :: bs := by
    rw [notifyCard, hps, notifyPieces_eq user has hq]
  have hpieces : ∀ p ∈ (notifyCard user c).ps, isPiece false p = true := by
    intro p hp
    rw [hnew] at hp
    rcases List.mem_append.mp hp with hp | hp
    · exact h.fits.pieces p (by simp [hps, hp])
    · rcases List.mem_cons.mp hp with rfl | hp
      · exact isPiece_keyword (List.all_iff_forall_prop.mp rfl) hu
      · exact h.fits.pieces p (by simp [hps, hp])
  have hne : (notifyCard user c).ps ≠ [] := by
    rw [hnew]
    simp
  have hlast : m = false → (notifyCard user c).ps.getLast? ≠ some [] := by
    intro hm
    rw [hnew]
    rcases List.eq_nil_or_concat bs with rfl | ⟨bs, b, rfl⟩
    · simp
    · have hend (x : Text) : (as ++ x :: bs.concat b).getLast? = some b := by
        rw [List.concat_eq_append, ← List.cons_append, ← List.append_assoc, List.getLast?_concat]
      have hold := getLast_of_fits h.fits hm
      rw [hps, hend] at hold
      rwa [hend]
  refine ⟨hpieces, render_ne_nil hne hlast, ?_, ?_, ?_⟩
  · have hshort := hlen
    rw [Card.text, ← List.append_assoc, List.length_append] at hshort
    rw [lastColumn]
    omega
  · intro x hx
    apply h.fits.tail
    obtain ⟨w, hw⟩ := List.rdropWhile_prefix (· == ' ') c.tail
    have hx : x ∈ (c.tail.rdropWhile (· == ' ')).head? := hx
    rw [← hw, List.head?_append, hx]
    rfl
  · cases m with
    | true => exact endsInComma_render_true hne
    | false => exact endsInComma_render_false hpieces (hlast rfl)

theorem map_eq_ok {ε α β : Type} {x : Except ε α} {f : α → β} {b : β} (h : x.map f = .ok b) :
    ∃ a, x = .ok a ∧ f a = b := by
  cases x with
  | error e => cases h
  | ok a => exact ⟨a, rfl, Except.ok.inj h⟩

theorem lineOf_nil {m : Bool} {c : Card} (h : c.ps = []) : lineOf m c = [] := if_pos h

theorem lineOf_text {m : Bool} {c : Card} (h : c.ps ≠ []) : lineOf m c = c.text m := if_neg h

/-- The cards with the caller put in, which happens on one of them at most. -/
def notifyCards (user : Text) : List (Bool × Card) → List (Bool × Card)
  | [] => []
  | x :: xs =>
    if (sysuidPiece x.2.ps).isSome then (x.1, notifyCard user x.2) :: xs
    else x :: notifyCards user xs

theorem notifyCards_ps (user : Text) (xs : List (Bool × Card)) :
    (notifyCards user xs).map (·.2.ps) = notifyAll user (xs.map (·.2.ps)) := by
  induction xs with
  | nil => rfl
  | cons x xs ih =>
    rw [notifyCards, List.map_cons, notifyAll]
    split
    · rfl
    · rw [List.map_cons, ih]

theorem notifyPieces_eq_nil {user : Text} {ps : List Text} :
    notifyPieces user ps = [] ↔ ps = [] := by
  cases ps with
  | nil => exact Iff.rfl
  | cons p ps =>
    rw [notifyPieces]
    split <;> exact iff_of_false (List.cons_ne_nil _ _) (List.cons_ne_nil _ _)

/-- The search for a NOTIFY on a line of the card. -/
theorem findNotify_line {x : Bool × Card} (hx : x.2.ps ≠ [] → Notifiable x.2 x.1) :
    ((∀ p ∈ x.2.ps, isNotify p = false) ∧ findNotifyOperand (lineOf x.1 x.2) = none) ∨
      ∃ as q bs, x.2.ps = as ++ q :: bs ∧ (∀ p ∈ as, isNotify p = false) ∧ isNotify q = true ∧
        lineOf x.1 x.2 = x.2.text x.1 ∧ Notifiable x.2 x.1 ∧
        findNotifyOperand (lineOf x.1 x.2) = some (x.2.lead ++ render true as).length := by
  rcases first_notify x.2.ps with hno | ⟨as, q, bs, hps, has, hq⟩
  · left
    refine ⟨hno, ?_⟩
    by_cases hps : x.2.ps = []
    · rw [lineOf_nil hps]
      rfl
    · have hnot := hx hps
      rw [lineOf_text hps]
      exact findNotify_none hnot.strippable hnot.fits hno
  · right
    have hne : x.2.ps ≠ [] := by simp [hps]
    have hnot := hx hne
    refine ⟨as, q, bs, hps, has, hq, lineOf_text hne, hnot, ?_⟩
    rw [lineOf_text hne]
    exact findNotify_some hnot.strippable hnot.fits hps has hq

/-- Behind the card that has the caller no line changes. -/
theorem processNotify_replaced {user : Text} {xs : List (Bool × Card)}
    (hx : ∀ x ∈ xs, x.2.ps ≠ [] → Notifiable x.2 x.1) :
    processNotify user true (xs.map fun x => lineOf x.1 x.2) =
      .ok (xs.map (fun x => lineOf x.1 x.2), (xs.flatMap (·.2.ps)).any isNotify) := by
  induction xs with
  | nil => rfl
  | cons x xs ih =>
    have ih := ih fun y hy => hx y (List.mem_cons_of_mem _ hy)
    rw [List.map_cons, processNotify, ih, List.flatMap_cons, List.any_append]
    rcases findNotify_line (hx x List.mem_cons_self) with
      ⟨hno, hfind⟩ | ⟨as, q, bs, hps, -, hq, -, -, hfind⟩
    · have hany : x.2.ps.any isNotify = false := by simpa using hno
      rw [hfind, hany]
      rfl
    · have hany : x.2.ps.any isNotify = true := by simp [hps, hq]
      rw [hfind, hany]
      rfl

/-- **The pass over NOTIFY.** The caller is put into the first NOTIFY of the first card where that
has a value which begins with `&SYSUID`. -/
theorem processNotify_cards {user : Text} (hu : isPiece false user = true)
    {xs : List (Bool × Card)} (hx : ∀ x ∈ xs, x.2.ps ≠ [] → Notifiable x.2 x.1)
    (hbare : ∀ p, sysuidTarget (xs.map (·.2.ps)) = some p → bare p = true)
    {lines : List Text} {present : Bool}
    (h : processNotify user false (xs.map fun x => lineOf x.1 x.2) = .ok (lines, present)) :
    lines = (notifyCards user xs).map (fun x => lineOf x.1 x.2) ∧
      present = (xs.flatMap (·.2.ps)).any isNotify ∧
      ∀ x ∈ notifyCards user xs, x.2.ps ≠ [] → x.2.Fits x.1 := by
  induction xs generalizing lines present with
  | nil =>
    cases h
    exact ⟨rfl, rfl, by simp [notifyCards]⟩
  | cons x xs ih =>
    have hxs : ∀ y ∈ xs, y.2.ps ≠ [] → Notifiable y.2 y.1 := fun y hy =>
      hx y (List.mem_cons_of_mem _ hy)
    have hfit : ∀ y ∈ xs, y.2.ps ≠ [] → y.2.Fits y.1 := fun y hy hne => (hxs y hy hne).fits
    rw [List.map_cons, sysuidTarget, List.findSome?_cons] at hbare
    rw [List.map_cons, processNotify] at h
    rw [notifyCards, List.flatMap_cons, List.any_append]
    -- a card that stays as it is, in front of those that are left to do
    have stays (hno : sysuidPiece x.2.ps = none) {r : List Text × Bool}
        (hr : processNotify user false (xs.map fun x => lineOf x.1 x.2) = .ok r) :
        lineOf x.1 x.2 :: r.1 = (x :: notifyCards user xs).map (fun x => lineOf x.1 x.2) ∧
          r.2 = (xs.flatMap (·.2.ps)).any isNotify ∧
          ∀ y ∈ x :: notifyCards user xs, y.2.ps ≠ [] → y.2.Fits y.1 := by
      rw [hno] at hbare
      obtain ⟨hlines, hpresent, hfits⟩ := ih hxs hbare hr
      refine ⟨by rw [hlines, List.map_cons], hpresent, ?_⟩
      intro y hy hne
      rcases List.mem_cons.mp hy with rfl | hy
      · exact (hx _ List.mem_cons_self hne).fits
      · exact hfits y hy hne
    rcases findNotify_line (hx x List.mem_cons_self) with
      ⟨hno, hfind⟩ | ⟨as, q, bs, hps, has, hq, hline, hnot, hfind⟩
    · have hnone := sysuidPiece_none hno
      have hany : x.2.ps.any isNotify = false := by simpa using hno
      rw [hfind] at h
      obtain ⟨r, hr, heq⟩ := map_eq_ok h
      cases heq
      obtain ⟨hlines, hpresent, hfits⟩ := stays hnone hr
      rw [hnone, hany]
      exact ⟨hlines, hpresent, hfits⟩
    · have hany : x.2.ps.any isNotify = true := by simp [hps, hq]
      have hpiece : sysuidPiece x.2.ps = if notifySysuid <+: q then some q else none := by
        rw [hps, sysuidPiece_eq has hq]
      have hq' : notifySysuid <+: q → bare q = true := by
        intro hyes
        rw [hpiece, if_pos hyes] at hbare
        exact hbare q rfl
      rw [hfind] at h
      simp only [Bool.false_eq_true, if_false] at h
      rw [hline, replaceSysuid_card hnot hps has hq hq'] at h
      by_cases hyes : notifySysuid <+: q
      · rw [if_pos hyes] at h
        by_cases hlong : ((notifyCard user x.2).text x.1).length ≥ 72
        · rw [if_pos hlong] at h
          cases h
        · rw [if_neg hlong] at h
          rw [processNotify_replaced hxs] at h
          cases h
          have hnew := notifyCard_fits hnot hu hps has hq (Nat.lt_of_not_ge hlong)
          rw [hpiece, if_pos hyes, hany, Option.isSome_some, if_pos rfl, List.map_cons,
            lineOf_text hnew.ps_ne_nil]
          refine ⟨rfl, rfl, ?_⟩
          intro y hy hne
          rcases List.mem_cons.mp hy with rfl | hy
          · exact hnew
          · exact hfit y hy hne
      · rw [if_neg hyes] at h
        obtain ⟨r, hr, heq⟩ := map_eq_ok h
        cases heq
        have hnone : sysuidPiece x.2.ps = none := by rw [hpiece, if_neg hyes]
        obtain ⟨hlines, -, hfits⟩ := stays hnone hr
        rw [hnone, hany, ← hline]
        exact ⟨hlines, rfl, hfits⟩

/-! ## The last card -/

/-- The comma stands outside apostrophes and parentheses. -/
theorem lastComma_scan {q : Bool} {d : Int} {line : Text} {ii : Nat}
    (h : lastComma q d line = some ii) :
    ∃ x y, line = x ++ ',' :: y ∧ x.length = ii ∧ x.foldl scan (q, d) = (false, 0) := by
  induction line generalizing q d ii with
  | nil => cases h
  | cons c cs ih =>
    have grow : ∀ {q' : Bool} {d' : Int} {j : Nat}, lastComma q' d' cs = some j →
        scan (q, d) c = (q', d') →
        ∃ x y, c :: cs = x ++ ',' :: y ∧ x.length = j + 1 ∧ x.foldl scan (q, d) = (false, 0) := by
      intro q' d' j hj hscan
      obtain ⟨x, y, rfl, rfl, hx⟩ := ih hj
      exact ⟨c :: x, y, rfl, rfl, by rw [List.foldl_cons, hscan, hx]⟩
    rw [lastComma] at h
    split at h
    next hc =>
      obtain ⟨j, hj, rfl⟩ := Option.map_eq_some_iff.mp h
      exact grow hj (if_pos hc)
    next hc =>
      split at h
      next hq =>
        obtain ⟨j, hj, rfl⟩ := Option.map_eq_some_iff.mp h
        exact grow hj (by rw [scan, if_neg hc, if_pos hq])
      next hq =>
        have hscan : scan (q, d) c = (q, nest d c) := by rw [scan, if_neg hc, if_neg hq]
        split at h
        next j hj =>
          cases h
          exact grow hj hscan
        next =>
          split at h
          next hcomma =>
            cases h
            obtain ⟨hcomma, hdepth⟩ := Bool.and_eq_true_iff.mp hcomma
            obtain rfl := eq_of_beq hcomma
            obtain rfl := eq_of_beq hdepth
            obtain rfl : q = false := Bool.not_eq_true _ ▸ hq
            exact ⟨[], cs, rfl, rfl, rfl⟩
          next => cases h

theorem lastComma_some {q : Bool} {d : Int} {line : Text} {ii : Nat}
    (h : lastComma q d line = some ii) :
    ∃ x y, line = x ++ ',' :: y ∧ x.length = ii ∧ quoted q x = false := by
  obtain ⟨x, y, hline, hlen, hscan⟩ := lastComma_scan h
  exact ⟨x, y, hline, hlen, (scan_fst (q, d) x).symm.trans (congrArg Prod.fst hscan)⟩

theorem quoted_of_not_mem {s : Text} (h : '\'' ∉ s) : quoted false s = false := by
  induction s with
  | nil => rfl
  | cons c cs ih =>
    have hc : c ≠ '\'' := by
      rintro rfl
      simp at h
    have hcs : '\'' ∉ cs := fun hm => h (List.mem_cons_of_mem _ hm)
    have := ih hcs
    simpa [quoted, hc] using this

/-- The card behind which operands are added: its pieces with a comma behind them, on one card or
two. -/
structure Continues (c : Card) (cs : List Card) : Prop where
  cards : ∃ d ds, cs = d :: ds ∧ d.lead = c.lead ∧ ∀ e ∈ ds, e.lead = indent
  fits : ∀ d ∈ cs, d.Fits true
  pieces : cs.flatMap (·.ps) = c.ps

/-- The last comma of a card stands between two of its pieces. -/
theorem lastComma_card {lead : Text} {ps : List Text} {d : Int} {ii : Nat}
    (hps : ∀ p ∈ ps, isPiece false p = true) (hcomma : ',' ∉ lead) (hquote : '\'' ∉ lead)
    (h : lastComma false d (lead ++ render false ps) = some ii) :
    ∃ as bs, ps = as ++ bs ∧ as ≠ [] ∧ bs ≠ [] ∧
      (lead ++ render false ps).take (ii + 1) = lead ++ render true as ∧
      (lead ++ render false ps).drop (ii + 1) = render false bs := by
  obtain ⟨x, y, hline, hx, hq⟩ := lastComma_some h
  obtain ⟨z, rfl, hz⟩ : ∃ z, x = lead ++ z ∧ render false ps = z ++ ',' :: y := by
    rcases List.append_eq_append_iff.mp hline with ⟨z, rfl, hz⟩ | ⟨z, hlead, hz⟩
    · exact ⟨z, rfl, hz⟩
    · cases z with
      | nil => exact ⟨[], by simpa using hlead.symm, by simpa using hz.symm⟩
      | cons a z =>
        obtain rfl : ',' = a := (List.cons.inj hz).1
        exact absurd (by simp [hlead]) hcomma
  rw [quoted_append, quoted_of_not_mem hquote] at hq
  obtain ⟨as, bs, hsplit, has, hbs, hfront, hback⟩ := render_comma hps hz hq
  have hcut : lead ++ render false ps = (lead ++ (z ++ [','])) ++ y := by
    rw [hline]
    simp
  have hlen : (lead ++ (z ++ [','])).length = ii + 1 := by
    rw [← hx]
    simp [Nat.add_assoc]
  refine ⟨as, bs, hsplit, has, hbs, ?_, ?_⟩
  · rw [hcut, List.take_left' hlen, hfront]
  · rw [hcut, List.drop_left' hlen, hback]

theorem jobcardContinue_card {c : Card} (h : c.Fits false) (hblank : ∀ x ∈ c.tail, x = ' ')
    (hcomma : ',' ∉ c.lead) (hquote : '\'' ∉ c.lead) :
    (jobcardContinue (c.text false) 81).rc < 0 ∨ ∃ cs, Continues c cs ∧
      (jobcardContinue (c.text false) 81).line ::
          (jobcardContinue (c.text false) 81).moved.toList = cs.map (·.text true) := by
  have hrender := rdropWhile_render h.pieces (getLast_of_fits h)
  have htrim : (c.text false).rdropWhile (· == ' ') = c.lead ++ render false c.ps := by
    rw [Card.text, ← List.append_assoc, Padding.rdropWhile_append (by simpa using hblank)]
    exact Padding.rdropWhile_append_self hrender h.solid _
  have hne : c.lead ++ render false c.ps ≠ [] := by simp [h.solid]
  have hlast : (c.lead ++ render false c.ps).getLast? ≠ some ',' := by
    have hc := h.comma
    rw [endsInComma, beq_eq_false_iff_ne] at hc
    rw [List.getLast?_append]
    obtain ⟨x, hx⟩ : ∃ x, (render false c.ps).getLast? = some x :=
      Option.isSome_iff_exists.mp (by simpa using h.solid)
    rw [hx] at hc ⊢
    simpa using hc
  have hmore : c.lead ++ render false c.ps ++ [','] = ({ c with tail := [] } : Card).text true := by
    rw [Card.text, render_more true h.ps_ne_nil]
    simp
  rw [jobcardContinue, htrim]
  simp only
  rw [if_neg (not_or.mpr ⟨hne, hlast⟩)]
  split
  next hshort =>
    right
    refine ⟨[{ c with tail := [] }], ⟨⟨_, [], rfl, rfl, by simp⟩, ?_, by simp⟩, by simp [hmore]⟩
    intro d hd
    rw [List.mem_singleton.mp hd]
    refine ⟨h.pieces, ?_, ?_, by simp, endsInComma_render_true h.ps_ne_nil⟩
    · exact render_ne_nil h.ps_ne_nil (by simp)
    · rw [JOBCARD_LAST_COL] at hshort
      rw [render_more true h.ps_ne_nil, ← List.append_assoc, List.length_append, lastColumn]
      exact hshort
  next hlong =>
    split
    · exact Or.inl (by simp)
    next hfull =>
      split
      · exact Or.inl (by simp)
      next ii hii =>
        split
        · exact Or.inl (by simp)
        next hroom =>
          right
          obtain ⟨as, bs, hps, has, hbs, htake, hdrop⟩ := lastComma_card h.pieces hcomma hquote hii
          have hpieces : ∀ p ∈ as ++ bs, isPiece false p = true := hps ▸ h.pieces
          rw [hdrop] at hroom
          rw [htake, hdrop]
          refine ⟨[⟨c.lead, as, []⟩, ⟨indent, bs, []⟩],
            ⟨⟨_, _, rfl, rfl, by simp⟩, ?_, by simp [hps]⟩, ?_⟩
          · intro d hd
            rcases List.mem_pair.mp hd with rfl | rfl
            · refine ⟨fun p hp => hpieces p (List.mem_append_left _ hp), ?_, ?_, by simp,
                endsInComma_render_true has⟩
              · exact render_ne_nil has (by simp)
              · rw [← htake, List.length_take, lastColumn]
                rw [JOBCARD_LAST_COL] at hfull
                omega
            · refine ⟨fun p hp => hpieces p (List.mem_append_right _ hp), ?_, ?_, by simp,
                endsInComma_render_true hbs⟩
              · exact render_ne_nil hbs (by simp)
              · simp only [JOBCARD_LAST_COL, not_or, Nat.not_lt] at hroom
                rw [render_more true hbs, ← List.append_assoc, lastColumn]
                exact hroom.1
          · rw [Option.toList_some, List.map_cons, List.map_singleton, Card.text, Card.text,
              render_more true hbs]
            simp

/-! ## The card with the caller's identity -/

/-- The characters a caller's userid and password are made of. -/
def plainChar (c : Char) : Bool := c != ',' && c != ' ' && c != '\'' && c != '(' && c != ')'

def identityOperands (user password : Text) (present : Bool) : List Text :=
  (if present then [] else [NOTIFY ++ '=' :: JOBCARD_NOTIFY_USER]) ++
    [USER ++ '=' :: user, PASSWORD ++ '=' :: password]

theorem isOperand_plain {s : Text} (h : ∀ c ∈ s, plainChar c = true) :
    isOperand false 0 s = true := by
  induction s with
  | nil => rfl
  | cons c cs ih =>
    have hc := h c List.mem_cons_self
    simp only [plainChar, Bool.and_eq_true, bne_iff_ne] at hc
    obtain ⟨⟨⟨⟨hcomma, hblank⟩, hquote⟩, hopen⟩, hclose⟩ := hc
    have ih := ih fun x hx => h x (List.mem_cons_of_mem _ hx)
    simp [isOperand, nest, hcomma, hblank, hquote, hopen, hclose, ih]

theorem pieces_plain {s : Text} (h : ∀ c ∈ s, plainChar c = true) : pieces false s = [s] := by
  apply pieces_of_no_comma
  intro hm
  exact absurd (h _ hm) (by decide)

theorem isPiece_plain {s : Text} (h : ∀ c ∈ s, plainChar c = true) : isPiece false s = true := by
  have := isPiece_of_mem_pieces (isOperand_plain h) s
  rw [pieces_plain h] at this
  exact this (List.mem_singleton_self _)

theorem plain_keyword {k v : Text} (hk : ∀ c ∈ k, plainChar c = true)
    (hv : ∀ c ∈ v, plainChar c = true) : ∀ c ∈ k ++ '=' :: v, plainChar c = true := by
  intro c hc
  rcases List.mem_append.mp hc with hc | hc
  · exact hk c hc
  · rcases List.mem_cons.mp hc with rfl | hc
    · rfl
    · exact hv c hc

theorem identityOperands_plain {user password : Text} (hu : ∀ c ∈ user, plainChar c = true)
    (hp : ∀ c ∈ password, plainChar c = true) (present : Bool) :
    ∀ o ∈ identityOperands user password present, ∀ c ∈ o, plainChar c = true := by
  intro o ho
  rcases List.mem_append.mp ho with ho | ho
  · cases present with
    | true => simp at ho
    | false =>
      obtain rfl : o = NOTIFY ++ '=' :: JOBCARD_NOTIFY_USER := List.mem_singleton.mp ho
      exact List.all_iff_forall_prop.mp rfl
  · rcases List.mem_pair.mp ho with rfl | rfl
    · exact plain_keyword (List.all_iff_forall_prop.mp rfl) hu
    · exact plain_keyword (List.all_iff_forall_prop.mp rfl) hp

theorem identityCard_card {user password card : Text} (hu : ∀ c ∈ user, plainChar c = true)
    (hp : ∀ c ∈ password, plainChar c = true) {present : Bool}
    (h : identityCard user password present = .ok card) :
    ∃ c : Card, card = c.text false ∧ c.lead = indent ∧
      c.ps = identityOperands user password present ∧ c.Fits false := by
  have hplain := identityOperands_plain hu hp present
  have hfits : ∀ tail : Text, tail.head? = some ' ' →
      (Card.text ⟨indent, identityOperands user password present, tail⟩ false).length < 72 →
      Card.Fits ⟨indent, identityOperands user password present, tail⟩ false := by
    intro tail htail hlen
    have hpieces : ∀ p ∈ identityOperands user password present, isPiece false p = true :=
      fun p hm => isPiece_plain (hplain p hm)
    have hlast : (identityOperands user password present).getLast? ≠ some [] := by
      simp [identityOperands]
    refine ⟨hpieces, render_ne_nil (by simp [identityOperands]) fun _ => hlast, ?_, ?_,
      endsInComma_render_false hpieces hlast⟩
    · rw [Card.text, ← List.append_assoc, List.length_append] at hlen
      rw [lastColumn]
      omega
    · intro x hx
      rw [htail] at hx
      exact (Option.some.inj hx).symm
  have htext : ∀ tail : Text,
      indent ++ (if present then [] else NOTIFY ++ '=' :: JOBCARD_NOTIFY_USER ++ [',']) ++
      (USER ++ '=' :: user) ++ ',' :: (PASSWORD ++ '=' :: password) ++ tail =
      Card.text ⟨indent, identityOperands user password present, tail⟩ false := by
    intro tail
    cases present with
    | true => simp [Card.text, identityOperands, render]
    | false => simp [Card.text, identityOperands, render]
  rw [identityCard] at h
  simp only [htext] at h
  split at h
  next hlen =>
    cases h
    exact ⟨_, rfl, rfl, rfl, hfits _ rfl hlen⟩
  next =>
    split at h
    next hlen =>
      cases h
      exact ⟨_, rfl, rfl, rfl, hfits _ rfl hlen⟩
    next => cases h

end Mvsmf
