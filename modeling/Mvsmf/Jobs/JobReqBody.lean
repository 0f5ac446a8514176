import Mvsmf.Jobs.JobReq

/-!
# Whole bodies and damaged ones

A scan that comes to the end of an object would not stop earlier in a longer text, so no object has
another one in front: a body that is cut off, and one with anything behind it, has no request.
-/

namespace Mvsmf

open Json

/-! ## What a longer text does not change -/

section Longer

variable (more : List Char)

theorem skipWs_longer {p : List Char} (h : skipWs p ≠ []) :
    skipWs (p ++ more) = skipWs p ++ more := by
  obtain ⟨c, q, hq⟩ := List.exists_cons_of_ne_nil h
  have hc : ¬ decide (c.toNat ≤ ' '.toNat) = true := by
    have hhead := List.head?_dropWhile_not (fun c : Char => decide (c.toNat ≤ ' '.toNat)) p
    rw [← skipWs, hq] at hhead
    simpa using hhead
  have hfront : ∀ d ∈ p.takeWhile fun c => c.toNat ≤ ' '.toNat,
      decide (d.toNat ≤ ' '.toNat) = true := fun d => List.mem_takeWhile_imp
  calc
    skipWs (p ++ more) = skipWs ((p.takeWhile fun c => c.toNat ≤ ' '.toNat) ++ (skipWs p ++ more)) := by
      have hsplit : (p.takeWhile fun c => c.toNat ≤ ' '.toNat) ++ skipWs p = p :=
        List.takeWhile_append_dropWhile
      rw [← List.append_assoc, hsplit]
    _ = skipWs (skipWs p ++ more) := List.dropWhile_append_of_pos hfront
    _ = skipWs p ++ more := by
      rw [hq, List.cons_append]
      exact List.dropWhile_cons_of_neg hc

theorem skipWs_longer_cons {p q : List Char} {c : Char} (h : skipWs p = c :: q) :
    skipWs (p ++ more) = c :: (q ++ more) := by
  rw [skipWs_longer more (by simp [h]), h]
  rfl

theorem scanString_longer {p s r : List Char} (h : scanString p = some (s, r)) :
    scanString (p ++ more) = some (s, r ++ more) := by
  induction hn : p.length using Nat.strongRecOn generalizing p s r with
  | ind n ih =>
    subst hn
    rw [scanString.eq_def] at h
    split at h
    · cases h
    · next c p =>
      rw [List.cons_append, scanString.eq_def]
      split at h
      · next hq =>
        cases h
        exact if_pos hq
      next hq =>
        simp only [hq, if_false]
        split at h
        · next hb =>
          simp only [hb, if_true]
          split at h
          · cases h
          · next e p =>
            obtain ⟨⟨s', r'⟩, hs, heq⟩ := Option.map_eq_some_iff.mp h
            cases heq
            have := ih p.length (by simp only [List.length_cons]; omega) hs rfl
            simp only [List.cons_append, this, Option.map_some, hb]
        · next hb =>
          simp only [hb, if_false]
          obtain ⟨⟨s', r'⟩, hs, heq⟩ := Option.map_eq_some_iff.mp h
          cases heq
          rw [ih p.length (Nat.lt_succ_self _) hs rfl]
          rfl

/-- One turn of `skip_value`, with more text behind it. -/
theorem skipValueStep_longer {s : Nat × List Char} :
    (∀ s', skipValueStep s = .inl s' →
      skipValueStep (s.1, s.2 ++ more) = .inl (s'.1, s'.2 ++ more)) ∧
    ∀ r, skipValueStep s = .inr (some r) →
      skipValueStep (s.1, s.2 ++ more) = .inr (some (r ++ more)) := by
  obtain ⟨depth, p⟩ := s
  cases p with
  | nil => simp [skipValueStep]
  | cons c p =>
    simp only [List.cons_append, skipValueStep]
    by_cases hq : c = '"'
    · simp only [hq, if_true]
      cases hs : scanString p with
      | none => simp
      | some sr =>
        obtain ⟨s, r⟩ := sr
        rw [scanString_longer more hs]
        constructor
        · intro s' h
          cases h
          rfl
        · simp
    · simp only [hq, if_false]
      by_cases hopen : c = '{' ∨ c = '['
      · simp only [hopen, if_true]
        constructor
        · intro s' h
          cases h
          rfl
        · simp
      · simp only [hopen, if_false]
        by_cases hclose : c = '}' ∨ c = ']'
        · simp only [hclose, if_true]
          by_cases hdepth : depth = 0
          · simp only [hdepth, if_true]
            refine ⟨by simp, fun r h => ?_⟩
            by_cases hb : c = '}'
            · simp only [hb, if_true] at h ⊢
              cases h
              rfl
            · simp only [hb, if_false] at h
              cases h
          · simp only [hdepth, if_false]
            constructor
            · intro s' h
              cases h
              rfl
            · simp
        · simp only [hclose, if_false]
          by_cases hcomma : c = ',' ∧ depth = 0
          · simp only [hcomma, and_self, if_true]
            refine ⟨by simp, fun r h => ?_⟩
            cases h
            rfl
          · simp only [hcomma, if_false]
            constructor
            · intro s' h
              cases h
              rfl
            · simp

theorem skipValue_longer {p r : List Char} (h : skipValue p = some r) :
    skipValue (p ++ more) = some (r ++ more) := by
  have hrun : ∀ s : Nat × List Char, ∀ r, skipValueLoop.exec s = some r →
      skipValueLoop.exec (s.1, s.2 ++ more) = some (r ++ more) := by
    intro s
    refine skipValueLoop.rule (P := fun s o => ∀ r, o = some r →
      skipValueLoop.exec (s.1, s.2 ++ more) = some (r ++ more)) (fun s o hs r ho => ?_)
      (fun s s' hs ih r ho => ?_) s
    · subst ho
      exact Loop.exec_done _ ((skipValueStep_longer more).2 r hs)
    · rw [Loop.exec_next _ ((skipValueStep_longer more).1 s' hs)]
      exact ih r ho
  exact hrun (0, p) r h

theorem jobreqValue_longer {p r : List Char} {v : JobreqValue} (h : jobreqValue p = some (v, r)) :
    ∃ v', jobreqValue (p ++ more) = some (v', r ++ more) := by
  unfold jobreqValue at h
  split at h
  · next q =>
    obtain ⟨⟨s, r'⟩, hs, heq⟩ := Option.map_eq_some_iff.mp h
    cases heq
    refine ⟨.string (q ++ more) s.length, ?_⟩
    rw [List.cons_append, jobreqValue, scanString_longer more hs]
    rfl
  · next hq =>
    obtain ⟨r', hr, heq⟩ := Option.map_eq_some_iff.mp h
    cases heq
    refine ⟨.other, ?_⟩
    rw [jobreqValue, skipValue_longer more hr]
    · rfl
    · intro q heq
      cases p with
      | nil => cases hr
      | cons c p =>
        obtain ⟨rfl, -⟩ := List.cons.inj heq
        exact hq p rfl

theorem jobreqNext_longer {p r : List Char} (h : jobreqNext p = some r) :
    jobreqNext (p ++ more) = some (r ++ more) := by
  unfold jobreqNext at h
  split at h
  · next q hq =>
    split at h
    · next q' hq' =>
      cases h
      simp only [jobreqNext, skipWs_longer_cons more hq, skipWs_longer_cons more hq']
      rfl
    · cases h
  · next q hq =>
    cases h
    simp only [jobreqNext, skipWs_longer_cons more hq]
    rfl
  · cases h

/-- A turn that goes on does so in a longer text. -/
theorem jobreqStep_longer {key : List Char} {s s' : List Char × Option JobreqValue}
    (h : jobreqStep key s = .inl s') (found : Option JobreqValue) :
    ∃ found', jobreqStep key (s.1 ++ more, found) = .inl (s'.1 ++ more, found') := by
  unfold jobreqStep at h
  split at h
  · cases h
  · next p found₀ =>
    split at h
    · cases h
    · next name q hname =>
      split at h
      · next q' hq =>
        split at h
        · cases h
        · next this r hr =>
          split at h
          · cases h
          · next r' hr' =>
            cases h
            have hne : skipWs q' ≠ [] := by
              rintro hnil
              rw [hnil] at hr
              cases hr
            obtain ⟨this', hr⟩ := jobreqValue_longer more hr
            simp only [List.cons_append, jobreqStep, scanString_longer more hname,
              skipWs_longer_cons more hq, skipWs_longer more hne, hr, jobreqNext_longer more hr']
            exact ⟨_, rfl⟩
      · cases h
  · cases h

theorem skipWs_append_of_nil {p : List Char} (h : skipWs p = []) :
    skipWs (p ++ more) = skipWs more :=
  List.dropWhile_append_of_pos (List.dropWhile_eq_nil_iff.mp h)

theorem skipWs_ne_nil {p : List Char} (h : ∃ c ∈ p, ' '.toNat < c.toNat) : skipWs p ≠ [] := by
  obtain ⟨c, hc, hlt⟩ := h
  intro hnil
  have := List.dropWhile_eq_nil_iff.mp hnil c hc
  exact absurd (of_decide_eq_true this) (Nat.not_le.mpr hlt)

theorem jobreqStep_accepts {key : List Char} {s : List Char × Option JobreqValue}
    {r : Option JobreqValue} (h : jobreqStep key s = .inr (some r)) :
    ∃ p found, s = ('}' :: p, found) ∧ skipWs p = [] := by
  unfold jobreqStep at h
  split at h
  · next p found =>
    refine ⟨p, found, rfl, ?_⟩
    by_contra hne
    rw [if_neg hne] at h
    cases h
  · split at h
    · cases h
    · split at h
      · split at h
        · cases h
        · split at h <;> cases h
      · cases h
  · cases h

/-- The scan of a longer text comes to the same closing bracket, and what is behind it is more than
white space. -/
theorem jobreqScan_longer {key p : List Char} {r : Option JobreqValue}
    (h : jobreqScan key p = some r) (hmore : skipWs more ≠ []) :
    jobreqScan key (p ++ more) = none := by
  have hrun : ∀ s : List Char × Option JobreqValue, ∀ r, (jobreqLoop key).exec s = some r →
      ∀ found, (jobreqLoop key).exec (s.1 ++ more, found) = none := by
    intro s
    refine (jobreqLoop key).rule (P := fun s o => ∀ r, o = some r → ∀ found,
      (jobreqLoop key).exec (s.1 ++ more, found) = none) (fun s o hs r ho found => ?_)
      (fun s s' hs ih r ho found => ?_) s
    · subst ho
      refine Loop.exec_done _ ?_
      obtain ⟨p, found₀, rfl, hp⟩ := jobreqStep_accepts hs
      have hbehind : skipWs (p ++ more) ≠ [] := by rwa [skipWs_append_of_nil more hp]
      simp only [jobreqLoop, List.cons_append, jobreqStep, hbehind, if_false]
    · obtain ⟨found', hstep⟩ := jobreqStep_longer more hs found
      rw [Loop.exec_next _ hstep]
      exact ih r ho found'
  unfold jobreqScan at h
  split at h
  · next q hq =>
    have hne : skipWs q ≠ [] := by
      intro hnil
      rw [hnil, Loop.exec_done _ rfl] at h
      cases h
    have hexec : (jobreqLoop key).exec (skipWs (q ++ more), none) = none := by
      rw [skipWs_longer more hne]
      exact hrun _ r h none
    rw [jobreqScan, skipWs_longer_cons more hq]
    exact hexec
  · cases h

end Longer

/-! ## The request of an object -/

/-- A string as it is written without escapes. -/
def spelled (w : List Char) : List Char := '"' :: (w ++ ['"'])

/-- The code of a value as it is written. -/
def requestCode (text : List Char) : Nat :=
  if text = spelled "cancel".toList then JOBREQ_CANCEL
  else if text = spelled "hold".toList then JOBREQ_HOLD
  else if text = spelled "release".toList then JOBREQ_RELEASE
  else JOBREQ_UNKNOWN

/-- What the last of the members written with the name asks for. -/
def requestOf (key : List Char) (es : List Entry) : Nat :=
  match (es.filter (·.name = key)).getLast? with
  | none => JOBREQ_NONE
  | some e => requestCode e.text

/-- The code of what was found behind the name. -/
def valueCode : JobreqValue → Nat
  | .other => JOBREQ_UNKNOWN
  | .string val vlen =>
    if val.take vlen = "cancel".toList then JOBREQ_CANCEL
    else if val.take vlen = "hold".toList then JOBREQ_HOLD
    else if val.take vlen = "release".toList then JOBREQ_RELEASE
    else JOBREQ_UNKNOWN

theorem jobreqParse_eq {body : List Char} {o : Option JobreqValue}
    (h : jobreqScan "request".toList body = some o) :
    jobreqParse body = o.elim JOBREQ_NONE valueCode := by
  rw [jobreqParse, h]
  cases o with
  | none => rfl
  | some v => cases v <;> rfl

theorem jobreqParse_none {body : List Char} (h : jobreqScan "request".toList body = none) :
    jobreqParse body = JOBREQ_NONE := by
  rw [jobreqParse, h]

theorem spelled_inj {w w' : List Char} : spelled w = spelled w' ↔ w = w' := by
  simp [spelled]

/-- The value is compared without its quotes. -/
theorem valueCode_valueAt {text : List Char} {v : Value} (h : Written text v) (rest : List Char) :
    valueCode (valueAt text rest) = requestCode text := by
  by_cases hq : text.head? = some '"'
  · obtain ⟨us, rfl⟩ := h.head_iff.mp hq
    obtain ⟨w, rfl, -⟩ := h.string_of
    have hval : valueAt (spelled w) rest = .string (w ++ '"' :: rest) w.length := by
      simp [valueAt, spelled]
    change valueCode (valueAt (spelled w) rest) = requestCode (spelled w)
    simp only [hval, valueCode, List.take_left, requestCode, spelled_inj]
  · have hne : ∀ w, text ≠ spelled w := by
      rintro w rfl
      exact hq rfl
    simp only [valueAt, hq, if_false, valueCode, requestCode, hne]

theorem lastNamed_code (key trail : List Char) {es : List Entry} (hok : ∀ e ∈ es, e.Ok) :
    (lastNamed key trail es).elim JOBREQ_NONE valueCode = requestOf key es := by
  rw [requestOf]
  cases hlast : lastNamed key trail es with
  | none =>
    have hnil : es.filter (·.name = key) = [] := by
      rw [List.filter_eq_nil_iff]
      intro e he
      simpa using lastNamed_eq_none_iff.mp hlast e he
    rw [hnil]
    rfl
  | some v =>
    obtain ⟨front, e, back, rfl, hname, hback, rfl⟩ := lastNamed_eq_some hlast
    have hnil : back.filter (·.name = key) = [] := by
      rw [List.filter_eq_nil_iff]
      intro f hf
      simpa using hback f hf
    have hfilter : (front ++ e :: back).filter (·.name = key) =
        front.filter (·.name = key) ++ [e] := by
      have hpos : decide (e.name = key) = true := decide_eq_true hname
      rw [List.filter_append, @List.filter_cons_of_pos _ _ _ back hpos, hnil]
    rw [hfilter, List.getLast?_concat]
    exact valueCode_valueAt (hok e (by simp)).text _

/-- **The request of a body.** An object makes the request that the last of its members written
`"request"` spells, and none if it has no such member; cut off before its last bracket, or with a
character above the blank behind it, it makes none. -/
theorem jobreqParse_object {body : List Char} {ms : List (List Nat × Value)}
    (h : parse body = some (.obj ms)) :
    Nonempty (Layout body ms) ∧ ∀ d : Layout body ms,
      jobreqParse body = requestOf "request".toList d.entries ∧
      (∀ cut, cut <+: d.lead ++ '{' :: d.inner → jobreqParse cut = JOBREQ_NONE) ∧
      ∀ junk : List Char, (∃ c ∈ junk, ' '.toNat < c.toNat) →
        jobreqParse (body ++ junk) = JOBREQ_NONE := by
  refine ⟨parse_object h, fun d => ?_⟩
  have hscan := jobreqScan_eq "request".toList d
  refine ⟨?_, fun cut hcut => ?_, fun junk hjunk => ?_⟩
  · rw [jobreqParse_eq hscan, lastNamed_code _ d.trail d.ok]
  · obtain ⟨more, hmore⟩ := hcut
    have hbody : body = cut ++ (more ++ '}' :: d.trail) := by
      conv_lhs => rw [d.eq]
      rw [← List.append_assoc, hmore, List.append_assoc, List.cons_append]
    cases hcutscan : jobreqScan "request".toList cut with
    | none => exact jobreqParse_none hcutscan
    | some r =>
      have hbrace : skipWs (more ++ '}' :: d.trail) ≠ [] :=
        skipWs_ne_nil ⟨'}', by simp, by decide⟩
      have hnone := jobreqScan_longer _ hcutscan hbrace
      rw [← hbody, hscan] at hnone
      cases hnone
  · exact jobreqParse_none (jobreqScan_longer junk hscan (skipWs_ne_nil hjunk))

theorem jobreqParse_object_hold :
    Nonempty (Layout "\x7b\"request\":\"hold\"\x7d".toList
      [(units "request".toList, .str (units "hold".toList))]) ∧
      ∀ d : Layout "\x7b\"request\":\"hold\"\x7d".toList
        [(units "request".toList, .str (units "hold".toList))],
        jobreqParse "\x7b\"request\":\"hold\"\x7d".toList =
          requestOf "request".toList d.entries ∧
        (∀ cut, cut <+: d.lead ++ '{' :: d.inner → jobreqParse cut = JOBREQ_NONE) ∧
        ∀ junk : List Char, (∃ c ∈ junk, ' '.toNat < c.toNat) →
          jobreqParse ("\x7b\"request\":\"hold\"\x7d".toList ++ junk) = JOBREQ_NONE :=
  jobreqParse_object (by rfl)

/-- A control character behind the object, which is no white space of JSON, is passed over; and a
value that says `cancel` with an escape is none of the three. -/
theorem jobreqParse_control :
    (¬ ∀ body ms c, parse body = some (.obj ms) → isSpace c = false →
      jobreqParse (body ++ [c]) = JOBREQ_NONE) ∧
    ¬ ∀ body, parse body = some (.obj [(units "request".toList, .str (units "cancel".toList))]) →
      jobreqParse body = JOBREQ_CANCEL := by
  constructor
  · intro h
    have hnone := h "\x7b\"request\":\"cancel\"\x7d".toList
      [(units "request".toList, .str (units "cancel".toList))] '\x01' (by rfl) (by decide)
    revert hnone
    decide +kernel
  · intro h
    have hcancel := h "\x7b\"request\":\"\\u0063ancel\"\x7d".toList (by rfl)
    revert hcancel
    decide +kernel

end Mvsmf
