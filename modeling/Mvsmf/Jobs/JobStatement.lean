import Mvsmf.Jobs.CardPasses
import Mvsmf.Jobs.TwoWays

/-!
# The JOB statement that is submitted

`process_jobcard` and a reader of JCL take a card apart in different ways: the one searches lines
for keywords, commas and blanks, the other reads an operand field. Where both see the same operands
the rewritten cards read as the submitted statement with the caller's identity on it.
-/

namespace Mvsmf

open Jcl

/-! ## Operands and their pieces -/

theorem pieces_head {s p : Text} {ps : List Text} (h : pieces false s = p :: ps) :
    s = p ∧ ps = [] ∨ ∃ t, s = p ++ ',' :: t := by
  have hs := render_pieces false s
  rw [h] at hs
  cases ps with
  | nil => exact Or.inl ⟨by simpa using hs.symm, rfl⟩
  | cons p' ps =>
    rw [render_cons false p (by simp)] at hs
    exact Or.inr ⟨_, hs.symm⟩

/-- An operand has the keyword if its first piece has it. -/
theorem prefix_pieces_head {k s p : Text} {ps : List Text} (hk : ∀ c ∈ k, c ≠ ',' ∧ c ≠ ' ')
    (h : pieces false s = p :: ps) : k <+: s ↔ k <+: p := by
  rcases pieces_head h with ⟨rfl, -⟩ | ⟨t, rfl⟩
  · exact Iff.rfl
  · constructor
    · intro hs
      by_contra hno
      exact not_prefix_behind hk (by simp) hno hs
    · exact fun hp => hp.trans (List.prefix_append _ _)

theorem IsKeyword.with_equals {k : Text} (hk : IsKeyword k) :
    ∀ c ∈ k ++ ['='], c ≠ ',' ∧ c ≠ ' ' := by
  intro c hc
  rcases List.mem_append.mp hc with hc | hc
  · exact ⟨(hk.chars c hc).1, (hk.chars c hc).2.1⟩
  · rw [List.mem_singleton.mp hc]
    decide

theorem carries_pieces_head {k s p : Text} {ps : List Text} (hk : IsKeyword k)
    (h : pieces false s = p :: ps) : carries k s = carries k p := by
  rw [Bool.eq_iff_iff, carries, carries, List.isPrefixOf_iff_prefix, List.isPrefixOf_iff_prefix]
  exact prefix_pieces_head hk.with_equals h

/-- The operands of the statement that is submitted. -/
def rewrittenOperands (user password : Text) (ops : List Text) : List Text :=
  (ops.filter (!isCredential ·)).map (sysuidTo user) ++
    identityOperands user password (ops.any isNotify)

/-- The operand `NOTIFY=&SYSUID`, if the statement has one, is the piece the caller is put into. -/
def SysuidFound (pss : List (List Text)) (ops : List Text) : Prop :=
  (sysuidTarget pss = none ∧ notifySysuid ∉ ops) ∨
    ∃ before as bs after os os', pss = before ++ (as ++ notifySysuid :: bs) :: after ∧
      sysuidTarget before = none ∧ (∀ p ∈ as, isNotify p = false) ∧
      ops = os ++ notifySysuid :: os' ∧ os.flatMap (pieces false) = before.flatten ++ as ∧
      notifySysuid ∉ os ∧ notifySysuid ∉ os'

/-- What the rewrite relies on of the operands, and of the pieces they are on the cards. -/
structure Rewritten (pss : List (List Text)) (ops : List Text) : Prop where
  /-- A credential has no comma or blank in its value. -/
  bare : ∀ o ∈ ops, isCredential o = true → bare o = true
  /-- No other operand has a credential in parentheses. -/
  inner : ∀ o ∈ ops, isCredential o = false → ∀ p ∈ pieces false o, isCredential p = false
  /-- A NOTIFY in parentheses is not the only one. -/
  notify : ∀ o ∈ ops, ∀ p ∈ pieces false o, isNotify p = true → ops.any isNotify = true
  sysuid : SysuidFound pss ops

theorem not_credential_of_notify {p : Text} (h : isNotify p = true) : isCredential p = false := by
  obtain ⟨v, rfl⟩ : ∃ v, NOTIFY ++ ['='] ++ v = p := List.isPrefixOf_iff_prefix.mp h
  rfl

theorem sysuidPiece_strip (ps : List Text) :
    sysuidPiece (ps.filter (!isCredential ·)) = sysuidPiece ps := by
  have hkeep : (fun p => decide ((!isCredential p) = true ∧ isNotify p = true)) = isNotify := by
    funext p
    cases hn : isNotify p with
    | true => rw [not_credential_of_notify hn]; rfl
    | false => exact decide_eq_false fun h => Bool.false_ne_true h.2
  rw [sysuidPiece, sysuidPiece, List.find?_filter, hkeep]

theorem sysuidTarget_strip (pss : List (List Text)) :
    sysuidTarget (pss.map (·.filter (!isCredential ·))) = sysuidTarget pss := by
  rw [sysuidTarget, sysuidTarget, List.findSome?_map]
  exact congrArg (List.findSome? · pss) (funext sysuidPiece_strip)

theorem notifyAll_none (user : Text) {pss : List (List Text)} (h : sysuidTarget pss = none) :
    notifyAll user pss = pss := by
  induction pss with
  | nil => rfl
  | cons ps pss ih =>
    obtain ⟨hps, hpss⟩ := List.forall_mem_cons.mp (List.findSome?_eq_none_iff.mp h)
    rw [notifyAll, hps, ih (List.findSome?_eq_none_iff.mpr hpss)]
    rfl

theorem notifyAll_target (user : Text) {before after : List (List Text)} {as bs : List Text}
    (h : sysuidTarget before = none) (has : ∀ p ∈ as, isNotify p = false) {q : Text}
    (hq : isNotify q = true) (hsys : notifySysuid <+: q) :
    notifyAll user (before ++ (as ++ q :: bs) :: after) =
      before ++ (as ++ (NOTIFY ++ '=' :: user) :: bs) :: after := by
  induction before with
  | nil =>
    rw [List.nil_append, notifyAll, sysuidPiece_eq has hq, if_pos hsys, Option.isSome_some,
      if_pos rfl, notifyPieces_eq user has hq]
    rfl
  | cons ps before ih =>
    obtain ⟨hps, hbefore⟩ := List.forall_mem_cons.mp (List.findSome?_eq_none_iff.mp h)
    rw [List.cons_append, notifyAll, hps, ih (List.findSome?_eq_none_iff.mpr hbefore)]
    rfl

theorem isNotify_sysuid : isNotify notifySysuid = true := by decide

theorem map_sysuidTo (user : Text) {os : List Text} (h : notifySysuid ∉ os) :
    os.map (sysuidTo user) = os := by
  conv_rhs => rw [← List.map_id os]
  apply List.map_congr_left
  intro o ho
  rw [sysuidTo, if_neg]
  · rfl
  · rintro rfl
    exact h ho

section Operands

variable {pss : List (List Text)} {ops : List Text} (h : Rewritten pss ops)

include h

/-- The pieces of the operands that are kept are the pieces that are kept. -/
theorem Rewritten.pieces_kept {l : List Text} (hl : ∀ o ∈ l, o ∈ ops) :
    (l.filter (!isCredential ·)).flatMap (pieces false) =
      (l.flatMap (pieces false)).filter (!isCredential ·) := by
  induction l with
  | nil => rfl
  | cons o l ih =>
    have ho := hl o List.mem_cons_self
    rw [List.flatMap_cons, List.filter_append, ← ih fun x hx => hl x (List.mem_cons_of_mem _ hx)]
    cases hc : isCredential o with
    | true =>
      have hcomma : ',' ∉ o := by
        intro hm
        have := List.all_eq_true.mp (h.bare o ho hc) _ hm
        exact absurd this (by decide)
      rw [List.filter_cons_of_neg (by simp [hc]), pieces_of_no_comma false hcomma,
        List.filter_cons_of_neg (by simp [hc])]
      rfl
    | false =>
      have hall : (pieces false o).filter (!isCredential ·) = pieces false o := by
        rw [List.filter_eq_self]
        intro p hp
        simp [h.inner o ho hc p hp]
      rw [List.filter_cons_of_pos (by simp [hc]), List.flatMap_cons, hall]

/-- What the passes leave is the pieces of the operands that are to be left. -/
theorem Rewritten.leftPieces {user : Text} (hu : ∀ c ∈ user, plainChar c = true)
    (hpieces : ops.flatMap (pieces false) = pss.flatten) :
    leftPieces user pss =
      ((ops.filter (!isCredential ·)).map (sysuidTo user)).flatMap (pieces false) := by
  rw [Mvsmf.leftPieces]
  rcases h.sysuid with ⟨hnone, hno⟩ | ⟨before, as, bs, after, os, os', hpss, hbefore, has, hops, hos,
    hno, hno'⟩
  · rw [notifyAll_none user ((sysuidTarget_strip pss).trans hnone), ← List.filter_flatten, ← hpieces,
      ← h.pieces_kept fun _ ho => ho, map_sysuidTo user fun hm => hno (List.mem_of_mem_filter hm)]
  · have hsys : pieces false notifySysuid = [notifySysuid] := by decide
    have hkeep (l : List Text) : (notifySysuid :: l).filter (!isCredential ·) =
        notifySysuid :: l.filter (!isCredential ·) := List.filter_cons_of_pos (by decide)
    have hrest : os'.flatMap (pieces false) = bs ++ after.flatten := by
      rw [hops, hpss] at hpieces
      simp only [List.flatMap_append, List.flatMap_cons, hsys, hos, List.flatten_append,
        List.flatten_cons, List.append_assoc, List.append_cancel_left_eq, List.cons_append,
        List.nil_append, List.cons.injEq, true_and] at hpieces
      exact hpieces
    have hleft := h.pieces_kept (l := os) fun o ho => by rw [hops]; simp [ho]
    have hright := h.pieces_kept (l := os') fun o ho => by rw [hops]; simp [ho]
    have has' : ∀ p ∈ as.filter (!isCredential ·), isNotify p = false :=
      fun p hp => has p (List.mem_of_mem_filter hp)
    have hplain : ∀ c ∈ NOTIFY ++ '=' :: user, plainChar c = true :=
      plain_keyword (List.all_iff_forall_prop.mp rfl) hu
    have hcaller : sysuidTo user notifySysuid = NOTIFY ++ '=' :: user := if_pos rfl
    rw [hpss, List.map_append, List.map_cons, List.filter_append, hkeep,
      notifyAll_target user ((sysuidTarget_strip before).trans hbefore) has' isNotify_sysuid
        List.prefix_rfl, hops, List.filter_append, hkeep, List.map_append, List.map_cons,
      hcaller, map_sysuidTo user fun hm => hno (List.mem_of_mem_filter hm),
      map_sysuidTo user fun hm => hno' (List.mem_of_mem_filter hm), List.flatMap_append,
      List.flatMap_cons, pieces_plain hplain, hleft, hright, hos, hrest]
    simp only [List.flatten_append, List.flatten_cons, List.filter_append, List.filter_flatten,
      List.append_assoc, List.cons_append, List.nil_append]

/-- There is a NOTIFY among the pieces exactly if there is one among the operands. -/
theorem Rewritten.any_notify (hpieces : ops.flatMap (pieces false) = pss.flatten) :
    pss.flatten.any isNotify = ops.any isNotify := by
  rw [← hpieces, Bool.eq_iff_iff, List.any_eq_true, List.any_eq_true]
  constructor
  · rintro ⟨p, hp, hnotify⟩
    obtain ⟨o, ho, hpo⟩ := List.mem_flatMap.mp hp
    exact List.any_eq_true.mp (h.notify o ho p hpo hnotify)
  · rintro ⟨o, ho, hnotify⟩
    obtain ⟨q, qs, hq⟩ := List.exists_cons_of_ne_nil (pieces_ne_nil false o)
    refine ⟨q, List.mem_flatMap.mpr ⟨o, ho, by rw [hq]; exact List.mem_cons_self⟩, ?_⟩
    rw [isNotify, ← carries_pieces_head isKeyword_notify hq]
    exact hnotify

end Operands

theorem operand_rewritten {ops : List Text} (h : ∀ o ∈ ops, isOperand false 0 o = true)
    {user password : Text} (hu : ∀ c ∈ user, plainChar c = true)
    (hp : ∀ c ∈ password, plainChar c = true) :
    ∀ o ∈ rewrittenOperands user password ops, isOperand false 0 o = true := by
  intro o ho
  rcases List.mem_append.mp ho with ho | ho
  · obtain ⟨q, hq, rfl⟩ := List.mem_map.mp ho
    rw [sysuidTo]
    split
    · exact isOperand_plain (plain_keyword (List.all_iff_forall_prop.mp rfl) hu)
    · exact h q (List.mem_of_mem_filter hq)
  · exact isOperand_plain (identityOperands_plain hu hp _ o ho)

theorem flatMap_plain {os : List Text} (h : ∀ o ∈ os, ∀ c ∈ o, plainChar c = true) :
    os.flatMap (pieces false) = os := by
  induction os with
  | nil => rfl
  | cons o os ih =>
    rw [List.flatMap_cons, pieces_plain (h o List.mem_cons_self),
      ih fun x hx => h x (List.mem_cons_of_mem _ hx)]
    rfl

/-! ## The statement as it is submitted -/

/-- The cards of a JOB statement. -/
structure JobCards (name : Text) (head : Card) (conts : List Card) : Prop where
  isName : isName name = true
  cards : IsStatement name "JOB".toList false head conts
  length : ∀ l ∈ layout false (head :: conts), l.length ≤ 80

/-- They hold these operands. -/
structure JobStatement (name : Text) (head : Card) (conts : List Card) (ops : List Text) : Prop
    extends JobCards name head conts where
  operand : ∀ o ∈ ops, isOperand false 0 o = true
  pieces : ops.flatMap (Jcl.pieces false) = (head :: conts).flatMap (·.ps)

/-- What the rewrite relies on of a card: it goes on for the code exactly if its field does, its
comment names no keyword, and the last card, and one that the strip leaves without operands, have no
comment at all. -/
structure PlainCard (m : Bool) (c : Card) : Prop where
  comma : hasComma (c.text m) = m
  quiet : ∀ k ∈ [USER, PASSWORD, NOTIFY], Quiet m k c.tail
  blank : m = false ∨ (stripCard c).ps = [] → ∀ x ∈ c.tail, x = ' '
  kept : m = false → (stripCard c).ps.getLast? ≠ some []

/-- The condition under which the rewrite finds the cards of the statement and ends every operand it
takes where a reader of JCL does. -/
structure CardFollowed (pre : List Text) (head : Card) (conts : List Card) (user password : Text) :
    Prop where
  /-- Nothing in front of the card looks like a JOB statement. -/
  first : ∀ l ∈ pre, isJobLine l = false
  /-- The operands of the continuation cards start in column 11 or behind. -/
  column : ∀ c ∈ conts, 10 ≤ c.lead.length
  going : ∀ c ∈ (head :: conts).dropLast, PlainCard true c
  last : PlainCard false ((head :: conts).getLast (List.cons_ne_nil _ _))
  /-- The first card keeps an operand. -/
  solid : (stripCard head).ps ≠ []
  /-- A credential has no comma or blank in its value. -/
  credential : ∀ c ∈ head :: conts, ∀ p ∈ c.ps, isCredential p = true → bare p = true
  /-- Nor has the NOTIFY that the caller is put into. -/
  notify : ∀ p, sysuidTarget ((head :: conts).map (·.ps)) = some p → bare p = true
  user : ∀ c ∈ user, plainChar c = true
  password : ∀ c ∈ password, plainChar c = true

/-- What is left of a card fits. -/
theorem fits_stripCard {c : Card} {m : Bool} (hf : c.Fits m) (hp : PlainCard m c)
    (hne : (stripCard c).ps ≠ []) : (stripCard c).Fits m := by
  apply fits_of_pieces hf (fun p hm => hf.pieces p (List.mem_of_mem_filter hm)) hne hp.kept
  have hlen := length_render_filter (!isCredential ·) m c.ps
  have hcol := hf.columns
  rw [List.length_append] at hcol ⊢
  omega

/-! ## The leads -/

theorem lead_of_isIndent {lead : Text} (h : IsIndent lead) :
    lead.getLast? = some ' ' ∧ ',' ∉ lead ∧ '\'' ∉ lead := by
  obtain ⟨n, hn, -, rfl⟩ := h
  obtain ⟨n, rfl⟩ := Nat.exists_eq_add_of_le' hn
  refine ⟨?_, ?_, ?_⟩
  · rw [List.replicate_succ', ← List.append_assoc, List.getLast?_concat]
  · simp
  · simp

theorem lead_of_isHead {name lead : Text} (h : IsHead name "JOB".toList lead)
    (hn : isName name = true) : lead.getLast? = some ' ' ∧ ',' ∉ lead ∧ '\'' ∉ lead := by
  obtain ⟨m, n, rfl⟩ := h.eq
  have hchars : ∀ c ∈ name, isNameChar c = true := by
    simp only [isName, Bool.and_eq_true, List.all_eq_true] at hn
    exact hn.1.2
  have hcomma : ',' ∉ name := fun hm => absurd (hchars _ hm) (by decide)
  have hquote : '\'' ∉ name := fun hm => absurd (hchars _ hm) (by decide)
  refine ⟨?_, ?_, ?_⟩
  · have hlast : List.replicate (n + 1) ' ' = List.replicate n ' ' ++ [' '] := List.replicate_succ'
    rw [hlast, ← List.append_assoc, List.getLast?_concat]
  · simp [hcomma]
  · simp [hquote]

theorem isJobLine_head {name : Text} {c : Card} {m : Bool} (h : IsHead name "JOB".toList c.lead)
    (hn : isName name = true) : isJobLine (c.text m) = true := by
  obtain ⟨i, j, hlead⟩ := h.eq
  have hlen : name.length ≤ 8 := by
    simp only [isName, Bool.and_eq_true, decide_eq_true_eq] at hn
    exact hn.1.1
  have hname : ∀ t : Text, ((name ++ ' ' :: t).take 8).takeWhile (· != ' ') = name := by
    intro t
    rw [List.take_append, List.take_of_length_le hlen, List.takeWhile_append_of_pos]
    · cases 8 - name.length with
      | zero => simp
      | succ k => simp
    · intro x hx
      simpa using h.name_chars x hx
  have htext : c.text m = '/' :: '/' :: (name ++ ' ' :: (List.replicate i ' ' ++ ("JOB".toList ++
      ' ' :: (List.replicate j ' ' ++ (render m c.ps ++ c.tail))))) := by
    rw [Card.text, hlead]
    simp [List.replicate_succ]
  have hlong : 3 ≤ (c.text m).length := by
    rw [htext]
    simp only [List.length_cons, List.length_append]
    omega
  have hop : getOperation (c.text m) = "JOB".toList := by
    rw [getOperation, if_neg (Nat.not_lt.mpr hlong), htext]
    simp only [List.drop_succ_cons, List.drop_zero, hname, List.drop_left]
    rw [List.dropWhile_cons_of_pos (by rfl), List.dropWhile_append_of_pos (by simp)]
    rfl
  have hjcl : isJclLine (c.text m) = true := by
    rw [htext]
    rfl
  rw [isJobLine, hop, hjcl, decide_eq_true hlong]
  rfl

theorem isContinuationLine_card {c : Card} {m : Bool} (h : IsIndent c.lead)
    (hcol : 10 ≤ c.lead.length) : isContinuationLine (c.text m) = true := by
  obtain ⟨n, -, -, hlead⟩ := h
  have hn : 8 ≤ n := by
    rw [hlead] at hcol
    simpa using hcol
  have htake : ((c.text m).drop 2).take 8 = List.replicate 8 ' ' := by
    rw [Card.text, hlead]
    simp only [String.reduceToList, List.cons_append, List.nil_append, List.drop_succ_cons,
      List.drop_zero]
    rw [List.take_append_of_le_length (by simpa using hn), List.take_replicate, Nat.min_eq_left hn]
  have hjcl : isJclLine (c.text m) = true := by
    rw [Card.text, hlead]
    rfl
  have hlen : 10 ≤ (c.text m).length := by
    rw [Card.text, List.length_append]
    omega
  rw [isContinuationLine, hjcl, decide_eq_true hlen, htake]
  rfl

/-! ## The card among the lines -/

theorem cardContinuations_layout {c : Card} {cs : List Card}
    (hcont : ∀ d ∈ cs, ∀ m, isContinuationLine (d.text m) = true)
    (hcomma : ∀ d ∈ (c :: cs).dropLast, hasComma (d.text true) = true)
    (hlast : hasComma (((c :: cs).getLast (List.cons_ne_nil _ _)).text false) = false)
    (post : List Text) :
    ∃ m lines, layout false (c :: cs) = c.text m :: lines ∧
      cardContinuations (c.text m) (lines ++ post) = (lines, post) := by
  induction cs generalizing c with
  | nil =>
    refine ⟨false, [], rfl, ?_⟩
    have hno : hasComma (c.text false) = false := hlast
    cases post with
    | nil => rfl
    | cons l post => simp [cardContinuations, hno]
  | cons d ds ih =>
    obtain ⟨m, lines, hlayout, hcard⟩ := ih (c := d)
      (fun e he => hcont e (List.mem_cons_of_mem _ he))
      (fun e he => hcomma e (by rw [List.dropLast_cons_cons]; exact List.mem_cons_of_mem _ he))
      hlast
    have hyes : hasComma (c.text true) = true := hcomma c (by simp)
    refine ⟨true, d.text m :: lines, by rw [layout, hlayout], ?_⟩
    simp [cardContinuations, hyes, hcont d List.mem_cons_self m, hcard]

/-- The cards, each with whether it goes on. -/
def flagged (head : Card) (conts : List Card) : List (Bool × Card) :=
  (head :: conts).dropLast.map (true, ·) ++ [(false, (head :: conts).getLast (List.cons_ne_nil _ _))]

theorem layout_flagged (head : Card) (conts : List Card) :
    layout false (head :: conts) = (flagged head conts).map fun x => x.2.text x.1 := by
  conv_lhs => rw [← List.dropLast_concat_getLast (List.cons_ne_nil head conts)]
  rw [layout_concat, flagged, List.map_append, List.map_map]
  rfl

theorem map_flagged (head : Card) (conts : List Card) :
    (flagged head conts).map (·.2) = head :: conts := by
  conv_rhs => rw [← List.dropLast_concat_getLast (List.cons_ne_nil head conts)]
  rw [flagged, List.map_append, List.map_map, List.map_singleton]
  exact congrArg (· ++ _) (List.map_id _)

/-- The first of them is the head. -/
theorem flagged_cons (head : Card) (conts : List Card) :
    ∃ m rest, flagged head conts = (m, head) :: rest ∧ ∀ x ∈ rest, x.2 ∈ conts := by
  cases conts with
  | nil => exact ⟨false, [], rfl, by simp⟩
  | cons d ds =>
    refine ⟨true, flagged d ds, rfl, ?_⟩
    intro x hx
    rw [← List.dropLast_concat_getLast (List.cons_ne_nil d ds)]
    rcases List.mem_append.mp hx with hx | hx
    · obtain ⟨c, hc, rfl⟩ := List.mem_map.mp hx
      exact List.mem_append_left _ hc
    · rw [List.mem_singleton.mp hx]
      simp

/-- The cards without their credentials. -/
def strippedCards (head : Card) (conts : List Card) : List (Bool × Card) :=
  (flagged head conts).map fun x => (x.1, stripCard x.2)

theorem strippedCards_ps (head : Card) (conts : List Card) :
    (strippedCards head conts).map (·.2.ps) =
      ((head :: conts).map (·.ps)).map (·.filter (!isCredential ·)) := by
  conv_rhs => rw [← map_flagged head conts]
  rw [strippedCards, List.map_map, List.map_map, List.map_map]
  rfl

section Deck

variable {name : Text} {head : Card} {conts : List Card} {pre : List Text} {user password : Text}
  (hc : JobCards name head conts) (hr : CardFollowed pre head conts user password)

include hc

theorem JobCards.fits : (∀ c ∈ (head :: conts).dropLast, c.Fits true) ∧
    ((head :: conts).getLast (List.cons_ne_nil _ _)).Fits false := by
  rw [← allFit_concat, List.dropLast_concat_getLast]
  exact hc.cards.fit

/-- The leads of the cards are passed over by the searches and have none of the characters that
steer them. -/
theorem JobCards.lead : ∀ c ∈ head :: conts,
    (∀ k, IsKeyword k → Skips k c.lead) ∧ c.lead.getLast? = some ' ' ∧ ',' ∉ c.lead ∧
      '\'' ∉ c.lead := by
  intro c hm
  rcases List.mem_cons.mp hm with rfl | hm
  · exact ⟨fun k hk => skips_head hk hc.cards.head hc.isName,
      lead_of_isHead hc.cards.head hc.isName⟩
  · exact ⟨fun k hk => skips_indent hk (hc.cards.indent c hm),
      lead_of_isIndent (hc.cards.indent c hm)⟩

theorem fits_flagged {x : Bool × Card} (hx : x ∈ flagged head conts) :
    x.2 ∈ head :: conts ∧ x.2.Fits x.1 ∧ (x.2.text x.1).length ≤ 80 := by
  have hlen : (x.2.text x.1).length ≤ 80 := by
    apply hc.length
    rw [layout_flagged]
    exact List.mem_map_of_mem hx
  rcases List.mem_append.mp hx with hx | hx
  · obtain ⟨c, hm, rfl⟩ := List.mem_map.mp hx
    exact ⟨List.mem_of_mem_dropLast hm, hc.fits.1 c hm, hlen⟩
  · obtain rfl := List.mem_singleton.mp hx
    exact ⟨List.getLast_mem _, hc.fits.2, hlen⟩

include hr

/-- `find_job_card_range` takes the cards of the statement for the JOB card. -/
theorem findJobCardRange_layout (post : List Text) :
    ∃ m lines, layout false (head :: conts) = head.text m :: lines ∧
      findJobCardRange (pre ++ layout false (head :: conts) ++ post) =
        some ⟨pre, head.text m, lines, post⟩ := by
  obtain ⟨m, lines, hlayout, hcard⟩ := cardContinuations_layout
    (fun d hd m => isContinuationLine_card (hc.cards.indent d hd) (hr.column d hd))
    (fun d hd => (hr.going d hd).comma) hr.last.comma post
  refine ⟨m, lines, hlayout, ?_⟩
  rw [hlayout, List.append_assoc, List.cons_append,
    findJobCardRange_eq hr.first (isJobLine_head hc.cards.head hc.isName), hcard]

omit hc in
theorem CardFollowed.flagged {x : Bool × Card} (hx : x ∈ flagged head conts) :
    PlainCard x.1 x.2 := by
  rcases List.mem_append.mp hx with hx | hx
  · obtain ⟨c, hc, rfl⟩ := List.mem_map.mp hx
    exact hr.going c hc
  · rw [List.mem_singleton.mp hx]
    exact hr.last

theorem strippable_card {x : Bool × Card} (hx : x ∈ flagged head conts) :
    Strippable x.1 x.2 := by
  have hm := (fits_flagged hc hx).1
  obtain ⟨hskips, hlead, -⟩ := hc.lead _ hm
  exact ⟨hskips, hlead, hr.credential _ hm, (hr.flagged hx).quiet⟩

/-! ## The card through the passes -/

theorem notifiable_stripCard {x : Bool × Card} (hx : x ∈ flagged head conts)
    (hne : (stripCard x.2).ps ≠ []) : Notifiable (stripCard x.2) x.1 := by
  have hstrip := strippable_card hc hr hx
  have hp := hr.flagged hx
  obtain ⟨-, hf, hall⟩ := fits_flagged hc hx
  refine ⟨⟨hstrip.skips, hstrip.lead, ?_, hstrip.quiet⟩, fits_stripCard hf hp hne, ?_, ?_⟩
  · exact fun p hm => hstrip.bare p (List.mem_of_mem_filter hm)
  · have hlen := length_render_filter (!isCredential ·) x.1 x.2.ps
    simp only [Card.text, stripCard, List.length_append] at hall ⊢
    omega
  · exact fun hm => hp.blank (Or.inl hm)

/-- **The strip** takes the credentials off every card and blanks the cards that had nothing
else. -/
theorem strip_layout {m : Bool} {lines : List Text}
    (hl : layout false (head :: conts) = head.text m :: lines) :
    (jobcardStripCredentials (head.text m :: lines)).1 =
      (strippedCards head conts).map fun x => lineOf x.1 x.2 := by
  obtain ⟨m', rest, hflag, hrest⟩ := flagged_cons head conts
  have hcards : head.text m :: lines = (flagged head conts).map fun x => x.2.text x.1 := by
    rw [← hl, layout_flagged]
  rw [hflag, List.map_cons] at hcards
  obtain ⟨hm, rfl⟩ := List.cons.inj hcards
  have hhead : (m', head) ∈ flagged head conts := by
    rw [hflag]
    exact List.mem_cons_self
  have hfirst : (stripCredentials (head.text m')).1 = lineOf m' (stripCard head) := by
    rw [lineOf_text hr.solid]
    exact stripCredentials_text (strippable_card hc hr hhead) (fits_flagged hc hhead).2.1
  rw [jobcardStripCredentials, hm, strippedCards, hflag, List.map_map, List.map_map, List.map_cons]
  refine congrArg₂ List.cons hfirst ?_
  apply List.map_congr_left
  intro x hx
  have hmem : x ∈ flagged head conts := by
    rw [hflag]
    exact List.mem_cons_of_mem _ hx
  have hf := (fits_flagged hc hmem).2.1
  have hplain := hr.flagged hmem
  exact stripContinuation_text (strippable_card hc hr hmem) hf (hc.cards.indent _ (hrest x hx))
    (fun hne => fits_stripCard hf hplain hne) fun hnil => hplain.blank (Or.inr hnil)

/-- **The pass over NOTIFY.** -/
theorem notify_layout {lines : List Text} {present : Bool}
    (h : processNotify user false ((strippedCards head conts).map fun x => lineOf x.1 x.2) =
      .ok (lines, present)) :
    lines = (notifyCards user (strippedCards head conts)).map (fun x => lineOf x.1 x.2) ∧
      present = ((head :: conts).map (·.ps)).flatten.any isNotify ∧
      ∀ x ∈ notifyCards user (strippedCards head conts), x.2.ps ≠ [] → x.2.Fits x.1 := by
  have hcards : ∀ y ∈ strippedCards head conts, y.2.ps ≠ [] → Notifiable y.2 y.1 := by
    intro y hy hne
    obtain ⟨x, hx, rfl⟩ := List.mem_map.mp hy
    exact notifiable_stripCard hc hr hx hne
  have hbare : ∀ p, sysuidTarget ((strippedCards head conts).map (·.2.ps)) = some p →
      bare p = true := by
    rw [strippedCards_ps, sysuidTarget_strip]
    exact hr.notify
  obtain ⟨rfl, rfl, hfits⟩ := processNotify_cards (isPiece_plain hr.user) hcards hbare h
  refine ⟨rfl, ?_, hfits⟩
  have hkept : (strippedCards head conts).flatMap (·.2.ps) =
      ((head :: conts).map (·.ps)).flatten.filter (!isCredential ·) := by
    rw [List.filter_flatten, ← strippedCards_ps, List.flatMap_def]
  rw [hkept, List.any_filter]
  refine congrArg (List.any _) (funext fun p => ?_)
  cases hn : isNotify p with
  | true => rw [not_credential_of_notify hn]; rfl
  | false => exact Bool.and_false _

end Deck

/-! ## The last card -/

theorem continueLast_concat (ls : List Text) (l : Text) :
    continueLast (ls ++ [l]) =
      if (jobcardContinue l 81).rc < 0 then .error .tooLong
      else .ok (ls ++ (jobcardContinue l 81).line :: (jobcardContinue l 81).moved.toList) := by
  induction ls with
  | nil => rfl
  | cons a ls ih =>
    have hcons : continueLast (a :: (ls ++ [l])) = (continueLast (ls ++ [l])).map (a :: ·) := by
      cases ls with
      | nil => rfl
      | cons b ls => rfl
    rw [List.cons_append, hcons, ih]
    split
    · rfl
    · rfl

theorem text_ne_nil {c : Card} {m : Bool} (h : c.Fits m) : c.text m ≠ [] := by
  simp [Card.text, h.solid]

/-- The blanked lines are no cards of the stream. -/
theorem filter_lineOf {m : Bool} {cs : List Card} (h : ∀ c ∈ cs, c.ps ≠ [] → c.Fits m) :
    (cs.map (lineOf m)).filter (· ≠ []) = (cs.filter (·.ps ≠ [])).map (·.text m) := by
  induction cs with
  | nil => rfl
  | cons c cs ih =>
    have ih := ih fun d hd => h d (List.mem_cons_of_mem _ hd)
    by_cases hps : c.ps = []
    · rw [List.map_cons, lineOf_nil hps, List.filter_cons_of_neg (by simp), ih,
        List.filter_cons_of_neg (by simpa using hps)]
    · have hne := text_ne_nil (h c List.mem_cons_self hps)
      rw [List.map_cons, lineOf_text hps, List.filter_cons_of_pos (by simpa using hne), ih,
        List.filter_cons_of_pos (by simpa using hps), List.map_cons]

theorem flatMap_filter (cs : List Card) :
    (cs.filter (·.ps ≠ [])).flatMap (·.ps) = cs.flatMap (·.ps) := by
  induction cs with
  | nil => rfl
  | cons c cs ih =>
    by_cases hps : c.ps = []
    · rw [List.filter_cons_of_neg (by simpa using hps), ih, List.flatMap_cons, hps,
        List.nil_append]
    · rw [List.filter_cons_of_pos (by simpa using hps), List.flatMap_cons, ih, List.flatMap_cons]

/-- What is left of the cards once the last one goes on: all of them do. -/
theorem continueLast_cards {xs : List Card} {c : Card}
    (hfits : ∀ d ∈ xs, d.ps ≠ [] → d.Fits true) (hlast : c.ps ≠ [] → c.Fits false)
    (hblank : ∀ x ∈ c.tail, x = ' ') (hcomma : ',' ∉ c.lead) (hquote : '\'' ∉ c.lead)
    {lines : List Text}
    (h : continueLast (xs.map (lineOf true) ++ [lineOf false c]) = .ok lines) :
    ∃ cs, (c.ps = [] ∧ cs = [] ∨ Continues c cs) ∧
      lines.filter (· ≠ []) = (xs.filter (·.ps ≠ []) ++ cs).map (·.text true) := by
  rw [continueLast_concat] at h
  split at h
  · cases h
  next hrc =>
    cases h
    by_cases hps : c.ps = []
    · refine ⟨[], Or.inl ⟨hps, rfl⟩, ?_⟩
      rw [lineOf_nil hps, List.filter_append, filter_lineOf hfits, List.append_nil]
      exact List.append_nil _
    · rw [lineOf_text hps] at hrc ⊢
      rcases jobcardContinue_card (hlast hps) hblank hcomma hquote with hneg | ⟨cs, hcs, htext⟩
      · exact absurd hneg hrc
      · refine ⟨cs, Or.inr hcs, ?_⟩
        have hall : (cs.map (·.text true)).filter (· ≠ []) = cs.map (·.text true) := by
          rw [List.filter_eq_self]
          intro l hl
          obtain ⟨d, hd, rfl⟩ := List.mem_map.mp hl
          simpa using text_ne_nil (hcs.fits d hd)
        rw [htext, List.filter_append, filter_lineOf hfits, hall, List.map_append]

/-! ## The whole card -/

/-- The caller is put into one of the cards in front, into the last one or into none. -/
theorem notifyCards_concat (user : Text) (as : List Card) (b : Card) :
    ∃ (as' : List Card) (b' : Card), notifyCards user (as.map (true, ·) ++ [(false, b)]) =
        as'.map (true, ·) ++ [(false, b')] ∧
      as'.map (·.lead) = as.map (·.lead) ∧ (b' = b ∨ b' = notifyCard user b) := by
  induction as with
  | nil =>
    rw [List.map_nil, List.nil_append, notifyCards]
    split
    · exact ⟨[], notifyCard user b, rfl, rfl, Or.inr rfl⟩
    · exact ⟨[], b, rfl, rfl, Or.inl rfl⟩
  | cons a as ih =>
    rw [List.map_cons, List.cons_append, notifyCards]
    split
    · exact ⟨notifyCard user a :: as, b, rfl, rfl, Or.inl rfl⟩
    · obtain ⟨as', b', hcards, hlead, hb⟩ := ih
      refine ⟨a :: as', b', by rw [hcards]; rfl, ?_, hb⟩
      rw [List.map_cons, List.map_cons, hlead]

/-- The cards as they are submitted, those in front of the last one and that. -/
theorem notifyCards_stripped (user : Text) (head : Card) (conts : List Card) :
    ∃ (front : List Card) (last : Card), notifyCards user (strippedCards head conts) =
        front.map (true, ·) ++ [(false, last)] ∧
      (front ++ [last]).map (·.lead) = (head :: conts).map (·.lead) ∧
      (front ++ [last]).map (·.ps) =
        notifyAll user (((head :: conts).map (·.ps)).map (·.filter (!isCredential ·))) ∧
      ((∀ x ∈ ((head :: conts).getLast (List.cons_ne_nil _ _)).tail, x = ' ') →
        ∀ x ∈ last.tail, x = ' ') := by
  have hstripped : strippedCards head conts =
      ((head :: conts).dropLast.map stripCard).map (true, ·) ++
        [(false, stripCard ((head :: conts).getLast (List.cons_ne_nil _ _)))] := by
    rw [strippedCards, flagged, List.map_append, List.map_map, List.map_map]
    rfl
  obtain ⟨front, last, hcards, hlead, hlast⟩ := notifyCards_concat user
    ((head :: conts).dropLast.map stripCard)
    (stripCard ((head :: conts).getLast (List.cons_ne_nil _ _)))
  rw [← hstripped] at hcards
  refine ⟨front, last, hcards, ?_, ?_, ?_⟩
  · have hlast' : last.lead = ((head :: conts).getLast (List.cons_ne_nil _ _)).lead := by
      rcases hlast with rfl | rfl
      · rfl
      · rfl
    conv_rhs => rw [← List.dropLast_concat_getLast (List.cons_ne_nil head conts)]
    rw [List.map_append, List.map_append, hlead, List.map_map, List.map_singleton, hlast']
    rfl
  · have hps := notifyCards_ps user (strippedCards head conts)
    rw [strippedCards_ps, hcards, List.map_append, List.map_map] at hps
    rw [← hps, List.map_append]
    rfl
  · intro hblank
    rcases hlast with rfl | rfl
    · exact hblank
    · exact fun x hx => hblank x ((List.rdropWhile_prefix _ _).subset hx)

/-- The first card keeps its operands. -/
theorem notifyAll_head {user : Text} {ps qs : List Text} {pss qss : List (List Text)}
    (h : notifyAll user (ps :: pss) = qs :: qss) (hps : ps ≠ []) : qs ≠ [] := by
  rw [notifyAll] at h
  split at h
  · obtain ⟨rfl, -⟩ := List.cons.inj h
    exact mt notifyPieces_eq_nil.mp hps
  · obtain ⟨rfl, -⟩ := List.cons.inj h
    exact hps

section Deck

variable {name : Text} {head : Card} {conts : List Card} {pre : List Text} {user password : Text}
  (hc : JobCards name head conts) (hr : CardFollowed pre head conts user password)

include hc

/-- The cards that are kept: the first is that of the statement, the others are indented. -/
theorem leads_kept {front cs : List Card} {last : Card}
    (hlead : (front ++ [last]).map (·.lead) = (head :: conts).map (·.lead))
    (hhead : ∀ c ∈ (front ++ [last]).head?, c.ps ≠ [])
    (hcs : last.ps = [] ∧ cs = [] ∨ Continues last cs) :
    ∃ d ds, front.filter (·.ps ≠ []) ++ cs = d :: ds ∧ d.lead = head.lead ∧
      ∀ e ∈ ds, IsIndent e.lead := by
  have hindent : IsIndent indent := ⟨9, by decide, by decide, rfl⟩
  cases front with
  | nil =>
    rcases hcs with ⟨hnil, -⟩ | hcs
    · exact absurd hnil (hhead last rfl)
    · obtain ⟨d, ds, rfl, hd, hds⟩ := hcs.cards
      refine ⟨d, ds, rfl, hd.trans (List.cons.inj hlead).1, ?_⟩
      intro e he
      rw [hds e he]
      exact hindent
  | cons c front =>
    obtain ⟨hfirst, hrest⟩ := List.cons.inj hlead
    have hlater : ∀ e ∈ front ++ [last], IsIndent e.lead := by
      intro e he
      have hmem : e.lead ∈ conts.map (·.lead) := hrest ▸ List.mem_map_of_mem he
      obtain ⟨c', hc', hlead'⟩ := List.mem_map.mp hmem
      rw [← hlead']
      exact hc.cards.indent c' hc'
    rw [List.filter_cons_of_pos (by simpa using hhead c rfl), List.cons_append]
    refine ⟨_, _, rfl, hfirst, ?_⟩
    intro e he
    rcases List.mem_append.mp he with he | he
    · exact hlater e (List.mem_append_left _ (List.mem_of_mem_filter he))
    · rcases hcs with ⟨-, rfl⟩ | hcs
      · cases he
      · obtain ⟨d, ds, rfl, hd, hds⟩ := hcs.cards
        rcases List.mem_cons.mp he with rfl | he
        · rw [hd]
          exact hlater last (List.mem_append_right _ (List.mem_singleton_self _))
        · rw [hds e he]
          exact hindent

theorem isStatement_kept {d i : Card} {ds : List Card} (hd : d.lead = head.lead)
    (hds : ∀ e ∈ ds, IsIndent e.lead) (hfit : ∀ e ∈ d :: ds, e.Fits true) (hi : i.lead = indent)
    (hlast : i.Fits false) : IsStatement name "JOB".toList false d (ds ++ [i]) := by
  refine ⟨?_, ?_, ?_⟩
  · rw [hd]
    exact hc.cards.head
  · intro e he
    rcases List.mem_append.mp he with he | he
    · exact hds e he
    · rw [List.mem_singleton.mp he, hi]
      exact ⟨9, by decide, by decide, rfl⟩
  · rw [← List.cons_append, allFit_concat]
    exact ⟨hfit, hlast⟩

include hr

/-- What the passes over the lines leave: the cards that are kept, each with a comma behind its
operands. -/
theorem continueLast_layout {noted continued : List Text} {present : Bool}
    (hnote : processNotify user false ((strippedCards head conts).map fun x => lineOf x.1 x.2) =
      .ok (noted, present))
    (hcont : continueLast noted = .ok continued) :
    ∃ (d : Card) (ds : List Card),
      continued.filter (· ≠ []) = (d :: ds).map (·.text true) ∧ d.lead = head.lead ∧
        (∀ e ∈ ds, IsIndent e.lead) ∧ (∀ e ∈ d :: ds, e.Fits true) ∧
        (d :: ds).flatMap (·.ps) = leftPieces user ((head :: conts).map (·.ps)) := by
  obtain ⟨rfl, -, hfits⟩ := notify_layout hc hr hnote
  obtain ⟨front, last, hcards, hlead, hps, htail⟩ := notifyCards_stripped user head conts
  rw [hcards] at hfits hcont
  have hfit : ∀ d ∈ front, d.ps ≠ [] → d.Fits true := fun d hd hne =>
    hfits (true, d) (List.mem_append_left _ (List.mem_map_of_mem hd)) hne
  have hlast : last.ps ≠ [] → last.Fits false := fun hne =>
    hfits (false, last) (List.mem_append_right _ (List.mem_singleton_self _)) hne
  have hleads : last.lead ∈ (head :: conts).map (·.lead) := by
    rw [← hlead]
    exact List.mem_map_of_mem (List.mem_append_right _ (List.mem_singleton_self _))
  obtain ⟨c, hm, hclead⟩ := List.mem_map.mp hleads
  obtain ⟨-, -, hcomma, hquote⟩ := hc.lead c hm
  rw [hclead] at hcomma hquote
  have hlines : (front.map (true, ·) ++ [(false, last)]).map (fun x => lineOf x.1 x.2) =
      front.map (lineOf true) ++ [lineOf false last] := by
    rw [List.map_append, List.map_map]
    rfl
  rw [hlines] at hcont
  obtain ⟨cs, hcs, hfilter⟩ := continueLast_cards hfit hlast (htail (hr.last.blank (Or.inl rfl)))
    hcomma hquote hcont
  have hhead : ∀ d ∈ (front ++ [last]).head?, d.ps ≠ [] := by
    intro d hd
    obtain ⟨rest, hrest⟩ : ∃ rest, front ++ [last] = d :: rest := by
      obtain ⟨d', rest, hrest⟩ := List.exists_cons_of_ne_nil (l := front ++ [last]) (by simp)
      rw [hrest] at hd
      exact ⟨rest, by rw [hrest, Option.some.inj hd]⟩
    rw [hrest, List.map_cons, List.map_cons] at hps
    exact notifyAll_head hps.symm hr.solid
  obtain ⟨d, ds, hkept, hd, hds⟩ := leads_kept hc hlead hhead hcs
  have hmoved : (∀ e ∈ cs, e.Fits true) ∧ cs.flatMap (·.ps) = last.ps := by
    rcases hcs with ⟨hnil, rfl⟩ | hcs
    · exact ⟨by simp, hnil.symm⟩
    · exact ⟨hcs.fits, hcs.pieces⟩
  refine ⟨d, ds, by rw [hfilter, hkept], hd, hds, ?_, ?_⟩
  · intro e he
    rw [← hkept] at he
    rcases List.mem_append.mp he with he | he
    · obtain ⟨hmem, hne⟩ := List.mem_filter.mp he
      exact hfit e hmem (by simpa using hne)
    · exact hmoved.1 e he
  · rw [← hkept, List.flatMap_append, flatMap_filter, hmoved.2, leftPieces, ← hps,
      List.map_append, List.flatten_append, List.map_singleton, List.flatten_singleton,
      List.flatMap_def]

/-- **The rewritten card** is the cards of one statement, the blanked lines between them aside. -/
theorem rewriteCard_layout {m : Bool} {lines card : List Text}
    (hl : layout false (head :: conts) = head.text m :: lines)
    (h : rewriteCard (head.text m) lines user password = .ok card) :
    ∃ c cs, card.filter (· ≠ []) = layout false (c :: cs) ∧
      IsStatement name "JOB".toList false c cs ∧
      leftPieces user ((head :: conts).map (·.ps)) ≠ [] ∧
      (∀ q ∈ leftPieces user ((head :: conts).map (·.ps)), isPiece false q = true) ∧
      (c :: cs).flatMap (·.ps) = leftPieces user ((head :: conts).map (·.ps)) ++
        identityOperands user password (((head :: conts).map (·.ps)).flatten.any isNotify) := by
  rw [rewriteCard, strip_layout hc hr hl] at h
  split at h
  · cases h
  next noted present hnote =>
    split at h
    · cases h
    next continued hcont =>
      split at h
      · cases h
      next identity hidentity =>
        cases h
        obtain ⟨d, ds, hlines, hd, hds, hfit, hps⟩ := continueLast_layout hc hr hnote hcont
        obtain ⟨i, rfl, hi, hips, hifit⟩ := identityCard_card hr.user hr.password hidentity
        obtain ⟨-, rfl, -⟩ := notify_layout hc hr hnote
        refine ⟨d, ds ++ [i], ?_, isStatement_kept hc hd hds hfit hi hifit, ?_, ?_, ?_⟩
        · have hone : [i.text false].filter (· ≠ []) = [i.text false] := by
            simpa using text_ne_nil hifit
          rw [List.filter_append, hlines, hone, ← List.cons_append, layout_concat]
        · rw [← hps, List.flatMap_cons]
          exact fun hnil => (hfit d List.mem_cons_self).ps_ne_nil (List.append_eq_nil_iff.mp hnil).1
        · intro q hq
          rw [← hps] at hq
          obtain ⟨e, he, hqe⟩ := List.mem_flatMap.mp hq
          exact (hfit e he).pieces q hqe
        · rw [← List.cons_append, List.flatMap_append, hps, List.flatMap_singleton, hips]

/-- **The statement that is submitted.** A JOB statement whose cards the rewrite can follow comes
out as one statement of the same name, its field the pieces that are left and the caller's identity.
The lines around it stay as they are. -/
theorem processJobcard_reads {post : List Text} {p : ProcessedJcl}
    (h : processJobcard (pre ++ layout false (head :: conts) ++ post) user password = .ok p) :
    ∃ card, p.lines = pre ++ card ++ post ∧ leftPieces user ((head :: conts).map (·.ps)) ≠ [] ∧
      (∀ q ∈ leftPieces user ((head :: conts).map (·.ps)), isPiece false q = true) ∧
      ∀ st : State, st.GivesWay → read st (card.filter (· ≠ [])) = (.ready, flush st ++ [⟨name,
        "JOB".toList, render false (leftPieces user ((head :: conts).map (·.ps)) ++
          identityOperands user password
            (((head :: conts).map (·.ps)).flatten.any isNotify))⟩]) := by
  obtain ⟨m, lines, hl, hrange⟩ := findJobCardRange_layout hc hr post
  have hname : name ≠ [] := by
    rintro rfl
    exact absurd hc.isName (by decide)
  rw [processJobcard, hrange] at h
  simp only at h
  split at h
  · cases h
  next card hcard =>
    cases h
    obtain ⟨c, cs, hlayout, hstatement, hne, hpieces, hps⟩ := rewriteCard_layout hc hr hl hcard
    refine ⟨card, rfl, hne, hpieces, fun st hst => ?_⟩
    rw [hlayout, hstatement.read_behind hname hst, hps]
    rfl

end Deck

/-- Taken at every comma, the operands come to what they come to when they are taken where one of
them ends. -/
def SamePieces (user password : Text) (pss : List (List Text)) (ops : List Text) : Prop :=
  leftPieces user pss ++ identityOperands user password (pss.flatten.any isNotify) =
    (rewrittenOperands user password ops).flatMap (pieces false)

instance (user password : Text) (pss : List (List Text)) (ops : List Text) :
    Decidable (SamePieces user password pss ops) :=
  inferInstanceAs (Decidable (_ = _))

/-- They do where every credential is an operand of its own, and NOTIFY too. -/
theorem Rewritten.samePieces {pss : List (List Text)} {ops : List Text} (h : Rewritten pss ops)
    (hpieces : ops.flatMap (pieces false) = pss.flatten) {user password : Text}
    (hu : ∀ c ∈ user, plainChar c = true) (hp : ∀ c ∈ password, plainChar c = true) :
    SamePieces user password pss ops := by
  have hplain := flatMap_plain (identityOperands_plain hu hp (ops.any isNotify))
  rw [SamePieces, h.leftPieces hu hpieces, h.any_notify hpieces, rewrittenOperands,
    List.flatMap_append, hplain]

def twoCardHead : Card := ⟨"//J1 JOB ".toList, ["(1".toList, "2)".toList, "'A,B'".toList,
  "NOTIFY=&SYSUID".toList], []⟩

def twoCardContinuation : Card := ⟨indent, ["USER=X".toList, "CLASS=A".toList], []⟩

def twoCardOperands : List Text := ["(1,2)".toList, "'A,B'".toList, "NOTIFY=&SYSUID".toList,
  "USER=X".toList, "CLASS=A".toList]

theorem twoCard_statement :
    JobStatement "J1".toList twoCardHead [twoCardContinuation] twoCardOperands := by
  refine ⟨⟨by decide, ⟨⟨⟨0, 0, rfl⟩, List.all_iff_forall_prop.mp rfl, by decide,
      List.all_iff_forall_prop.mp rfl, by simp⟩, ?_, ?_⟩, by decide +kernel⟩,
    by decide +kernel, by decide +kernel⟩
  · intro c hc
    rw [List.mem_singleton.mp hc]
    exact ⟨9, by decide, by decide, rfl⟩
  · have hgoing : twoCardHead.Fits true := ⟨by decide +kernel, by decide +kernel, by decide +kernel,
      (fun _ h => nomatch h), by decide +kernel⟩
    have hlast : twoCardContinuation.Fits false := ⟨by decide +kernel, by decide +kernel,
      by decide +kernel, (fun _ h => nomatch h), by decide +kernel⟩
    exact ⟨hgoing, hlast⟩

theorem twoCard_followed : CardFollowed ["//* COMMENT".toList] twoCardHead [twoCardContinuation]
    "U".toList "P".toList := by
  have hquiet : ∀ m, ∀ k ∈ [USER, PASSWORD, NOTIFY], Quiet m k [] :=
    fun m k _ => ⟨by simp, by simp, rfl⟩
  have hgoing : PlainCard true twoCardHead :=
    ⟨by decide +kernel, hquiet _, fun _ => List.forall_mem_nil _, fun h => nomatch h⟩
  have hlast : PlainCard false twoCardContinuation :=
    ⟨by decide +kernel, hquiet _, fun _ => List.forall_mem_nil _, fun _ => by decide +kernel⟩
  have htarget : sysuidTarget ((twoCardHead :: [twoCardContinuation]).map (·.ps)) =
      some "NOTIFY=&SYSUID".toList := by decide +kernel
  refine ⟨by decide +kernel, by decide +kernel, List.forall_mem_singleton.mpr hgoing, hlast,
    by decide +kernel, by decide +kernel, ?_, List.all_iff_forall_prop.mp rfl,
    List.all_iff_forall_prop.mp rfl⟩
  intro p hp
  rw [htarget] at hp
  cases hp
  decide +kernel

end Mvsmf
