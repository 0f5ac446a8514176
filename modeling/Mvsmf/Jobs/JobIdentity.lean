import Mvsmf.Jobs.JobStatement

/-!
# Whose identity the jobs of a stream have

`process_jobcard` rewrites one card. The JOB statement it takes has the caller's identity and no
other; what stands in front of that card and behind it goes to the reader as it was submitted.
-/

namespace Mvsmf

open Jcl

/-- The statement has one USER and one PASSWORD operand, the caller's. -/
def CarriesCaller (user password : Text) (s : Statement) : Prop :=
  s.operands.filter (carries USER) = [USER ++ '=' :: user] ∧
    s.operands.filter (carries PASSWORD) = [PASSWORD ++ '=' :: password]

instance (user password : Text) (s : Statement) : Decidable (CarriesCaller user password s) :=
  inferInstanceAs (Decidable (_ ∧ _))

/-- Every JOB statement runs under the caller's identity. -/
def AllCarryCaller (user password : Text) (ss : List Statement) : Prop :=
  ∀ s ∈ ss, s.isJob = true → CarriesCaller user password s

theorem AllCarryCaller.append_iff {user password : Text} {ss ts : List Statement} :
    AllCarryCaller user password (ss ++ ts) ↔
      AllCarryCaller user password ss ∧ AllCarryCaller user password ts := by
  simp only [AllCarryCaller, List.forall_mem_append]

theorem AllCarryCaller.singleton_iff {user password : Text} {s : Statement} (h : s.isJob = true) :
    AllCarryCaller user password [s] ↔ CarriesCaller user password s := by
  constructor
  · exact fun hs => hs s (List.mem_singleton_self s) h
  · exact fun hs t ht _ => List.mem_singleton.mp ht ▸ hs

/-! ## The pieces that are left -/

theorem mem_notifyPieces {user p : Text} {ps : List Text} (h : p ∈ notifyPieces user ps) :
    p = NOTIFY ++ '=' :: user ∨ p ∈ ps := by
  induction ps with
  | nil => cases h
  | cons q ps ih =>
    rw [notifyPieces] at h
    split at h
    · exact (List.mem_cons.mp h).imp_right (List.mem_cons_of_mem q)
    · rcases List.mem_cons.mp h with rfl | h
      · exact Or.inr List.mem_cons_self
      · exact (ih h).imp_right (List.mem_cons_of_mem q)

theorem mem_notifyAll {user p : Text} {pss : List (List Text)}
    (h : p ∈ (notifyAll user pss).flatten) : p = NOTIFY ++ '=' :: user ∨ p ∈ pss.flatten := by
  induction pss with
  | nil => cases h
  | cons ps pss ih =>
    rw [List.flatten_cons]
    rw [notifyAll] at h
    split at h
    · rcases List.mem_append.mp h with h | h
      · exact (mem_notifyPieces h).imp_right (List.mem_append_left _)
      · exact Or.inr (List.mem_append_right _ h)
    · rcases List.mem_append.mp h with h | h
      · exact Or.inr (List.mem_append_left _ h)
      · exact (ih h).imp_right (List.mem_append_right _)

/-- None of them is a credential. -/
theorem not_credential_leftPieces (user : Text) (pss : List (List Text)) :
    ∀ p ∈ leftPieces user pss, isCredential p = false := by
  intro p hp
  rcases mem_notifyAll hp with rfl | hp
  · rfl
  · obtain ⟨ps, hps, hp⟩ := List.mem_flatten.mp hp
    obtain ⟨qs, -, rfl⟩ := List.mem_map.mp hps
    simpa using (List.mem_filter.mp hp).2

/-! ## The caller among the operands -/

theorem filter_identityOperands (user password : Text) (present : Bool) :
    (identityOperands user password present).filter (carries USER) = [USER ++ '=' :: user] ∧
      (identityOperands user password present).filter (carries PASSWORD) =
        [PASSWORD ++ '=' :: password] := by
  cases present with
  | true => exact ⟨rfl, rfl⟩
  | false => exact ⟨rfl, rfl⟩

theorem mem_render {c : Char} {m : Bool} {ps : List Text} (h : c ∈ render m ps) :
    c = ',' ∨ ∃ p ∈ ps, c ∈ p := by
  induction ps with
  | nil => cases h
  | cons p ps ih =>
    by_cases hps : ps = []
    · subst hps
      rw [render_singleton] at h
      split at h
      · rcases List.mem_append.mp h with h | h
        · exact Or.inr ⟨p, List.mem_cons_self, h⟩
        · exact Or.inl (List.mem_singleton.mp h)
      · exact Or.inr ⟨p, List.mem_cons_self, h⟩
    · rw [render_cons m p hps] at h
      rcases List.mem_append.mp h with h | h
      · exact Or.inr ⟨p, List.mem_cons_self, h⟩
      · rcases List.mem_cons.mp h with rfl | h
        · exact Or.inl rfl
        · exact (ih h).imp_right fun ⟨q, hq, hc⟩ => ⟨q, List.mem_cons_of_mem _ hq, hc⟩

/-- An operand begins with a piece of the text. -/
theorem not_carries_split {k : Text} (hk : IsKeyword k) {ps : List Text}
    (hp : ∀ p ∈ ps, isPiece false p = true) (hne : ps ≠ []) (hno : ∀ p ∈ ps, carries k p = false) :
    ∀ o ∈ split false 0 (render false ps), carries k o = false := by
  intro o ho
  obtain ⟨q, qs, hq⟩ := List.exists_cons_of_ne_nil (pieces_ne_nil false o)
  have hmem : q ∈ ps := by
    rw [← pieces_render hp hne, ← flatMap_split]
    exact List.mem_flatMap.mpr ⟨o, ho, by rw [hq]; exact List.mem_cons_self⟩
  rw [carries_pieces_head hk hq, hno q hmem]

section Caller

variable {ps : List Text} (hp : ∀ p ∈ ps, isPiece false p = true) (hne : ps ≠ [])
  {user password : Text} (hu : ∀ c ∈ user, plainChar c = true)
  (hw : ∀ c ∈ password, plainChar c = true) (present : Bool)

include hne

theorem render_identity : render false (ps ++ identityOperands user password present) =
    render false ps ++ ',' :: render false (identityOperands user password present) := by
  have hid : identityOperands user password present ≠ [] := by simp [identityOperands]
  rw [render_append false ps hid, render_more true hne, if_pos rfl, List.append_assoc]
  rfl

include hp hu hw

/-- With the parentheses closed the caller's operands are operands. -/
theorem split_identity (hbal : balanced (render false ps) = true) :
    split false 0 (render false (ps ++ identityOperands user password present)) =
      split false 0 (render false ps) ++ identityOperands user password present := by
  have hid : identityOperands user password present ≠ [] := by simp [identityOperands]
  have hscan : (render false ps).foldl scan (false, 0) = (false, 0) :=
    Prod.ext ((scan_fst _ _).trans (quoted_render hp)) (eq_of_beq hbal)
  have hsplit := split_comma hscan (render false (identityOperands user password present))
  rw [render_identity hne present, hsplit, split_render (fun o ho => isOperand_plain
    (identityOperands_plain hu hw present o ho)) hid]

/-- With a parenthesis open they are part of the operand in front of them. -/
theorem not_carries_glued (hbal : balanced (render false ps) = false) {k : Text} (hk : IsKeyword k)
    (hno : ∀ p ∈ ps, carries k p = false) :
    ∀ o ∈ split false 0 (render false (ps ++ identityOperands user password present)),
      carries k o = false := by
  have hstate : (render false ps).foldl scan (false, 0) =
      (false, ((render false ps).foldl scan (false, 0)).2) :=
    Prod.ext ((scan_fst _ _).trans (quoted_render hp)) rfl
  have hplain : ∀ c ∈ ',' :: render false (identityOperands user password present),
      c ≠ '\'' ∧ c ≠ '(' ∧ c ≠ ')' := by
    refine List.forall_mem_cons.mpr ⟨by decide, fun c hc => ?_⟩
    rcases mem_render hc with rfl | ⟨o, ho, hco⟩
    · decide
    · have hchar := identityOperands_plain hu hw present o ho c hco
      simp only [plainChar, Bool.and_eq_true, bne_iff_ne] at hchar
      exact ⟨hchar.1.1.2, hchar.1.2, hchar.2⟩
  obtain ⟨os, o, hfront, hall⟩ := split_glued hstate (by simpa [balanced] using hbal) hplain
  have hfree := not_carries_split hk hp hne hno
  rw [show split false 0 (render false ps) = os ++ [o] from hfront] at hfree
  rw [render_identity hne present, show split false 0 _ = _ from hall]
  intro o' ho'
  rcases List.mem_append.mp ho' with ho' | ho'
  · exact hfree o' (List.mem_append_left _ ho')
  · rw [List.mem_singleton.mp ho']
    have hlast := hfree o (List.mem_append_right _ (List.mem_singleton_self _))
    rw [carries, ← Bool.not_eq_true, List.isPrefixOf_iff_prefix] at hlast ⊢
    exact not_prefix_behind hk.with_equals (by simp) hlast

end Caller

/-- The caller's operands are operands of the statement exactly if every parenthesis in front of
them is closed. -/
theorem carriesCaller_iff {ps : List Text} (hp : ∀ p ∈ ps, isPiece false p = true) (hne : ps ≠ [])
    (hno : ∀ p ∈ ps, isCredential p = false) {user password : Text}
    (hu : ∀ c ∈ user, plainChar c = true) (hw : ∀ c ∈ password, plainChar c = true) {present : Bool}
    {s : Statement}
    (hs : s.text = render false (ps ++ identityOperands user password present)) :
    CarriesCaller user password s ↔ balanced (render false ps) = true := by
  have hnone (k : Text) (hk : k = USER ∨ k = PASSWORD) : ∀ p ∈ ps, carries k p = false := by
    intro p hm
    obtain ⟨huser, hpass⟩ := Bool.or_eq_false_iff.mp (hno p hm)
    rcases hk with rfl | rfl
    · exact huser
    · exact hpass
  have huser := hnone USER (Or.inl rfl)
  have hpass := hnone PASSWORD (Or.inr rfl)
  have htext : s.text ≠ [] := by
    rw [hs, render_identity hne present]
    exact List.append_ne_nil_of_right_ne_nil _ (List.cons_ne_nil _ _)
  rw [CarriesCaller, Statement.operands, if_neg htext, hs]
  obtain ⟨hfuser, hfpass⟩ := filter_identityOperands user password present
  cases hbal : balanced (render false ps) with
  | true =>
    refine iff_of_true ?_ rfl
    have hfree {k : Text} (hk : IsKeyword k) (hkno : ∀ p ∈ ps, carries k p = false) :
        (split false 0 (render false ps)).filter (carries k) = [] := by
      rw [List.filter_eq_nil_iff]
      intro o ho hyes
      rw [not_carries_split hk hp hne hkno o ho] at hyes
      cases hyes
    rw [split_identity hp hne hu hw present hbal, List.filter_append, List.filter_append, hfuser,
      hfpass, hfree isKeyword_user huser, hfree isKeyword_password hpass]
    exact ⟨rfl, rfl⟩
  | false =>
    refine iff_of_false ?_ Bool.false_ne_true
    rintro ⟨hcaller, -⟩
    have hmem : USER ++ '=' :: user ∈
        (split false 0 (render false (ps ++ identityOperands user password present))).filter
          (carries USER) := by
      rw [hcaller]
      exact List.mem_singleton_self _
    obtain ⟨hmem, hcarries⟩ := List.mem_filter.mp hmem
    rw [not_carries_glued hp hne hu hw present hbal isKeyword_user huser _ hmem] at hcarries
    cases hcarries

end Mvsmf
