import Mvsmf.Dsapi.PutRun
import Mathlib

/-!
# What a PUT may destroy

Opening the target for output destroys what is on it. A handler is careful with a body when it
opens the target only with a first complete record in hand or with a complete well-formed body
behind it, and answers 2xx only for a well-formed body of which every record is on the target. The
handlers read sizes with `strtoul` and do not look at what it left, so a size that is no number is
the size 0 of an empty body: they are careful with the bodies of `SafeBody` and with no others.
-/

namespace Mvsmf

/-- A Content-Length of decimal digits, blanks around them, that an `unsigned long` holds. -/
structure DeclaresLength (cl : List Char) (n : Nat) : Prop where
  split : ∃ sp ds sp', cl = sp ++ (ds ++ sp') ∧ (∀ c ∈ sp, c = ' ') ∧ (∀ c ∈ sp', c = ' ') ∧
    ds ≠ [] ∧ (∀ c ∈ ds, CLib.isDigit 10 c = true) ∧ CLib.numeral 10 ds = n
  bound : n ≤ CLib.ULONG_MAX

/-- The stream brings the complete body `b` in the framing the request names, with `rest` behind
it: all of its declared length, or its chunks up to the zero-size one. A size line longer than the
line buffer is refused by the other reader of chunks and is not well formed here. -/
def PutRequest.WellFormed (req : PutRequest) (s b rest : List UInt8) : Prop :=
  if isChunked req.transferEncoding then Chunked.Coded Fits s b rest
  else s = b ++ rest ∧ ∃ cl, req.contentLength = some cl ∧ DeclaresLength cl b.length

theorem DeclaresLength.strtoul {cl : List Char} {n : Nat} (h : DeclaresLength cl n) :
    (CLib.strtoul 10 cl).1 = n := by
  obtain ⟨sp, ds, sp', rfl, hsp, hsp', h0, hd, rfl⟩ := h.split
  have hhead : ∀ c ∈ sp'.head?, c = ' ' := by
    intro c hc
    exact hsp' c (List.mem_of_mem_head? hc)
  rw [CLib.strtoul_spaces 10 (fun c hc => by rw [hsp c hc]; rfl),
    CLib.strtoul_digits h0 hd (fun c hc => by rw [hhead c hc]; rfl)
      (fun c hc => by rw [hhead c hc]; exact ⟨by decide, by decide⟩) (by decide)]
  exact Nat.min_eq_left h.bound

namespace PutJob

variable (j : PutJob)

/-- What the framing of the request delivers of a stream. -/
def Gets (req : PutRequest) (s : List UInt8) (ds : List (UInt8 × List UInt8)) (e : Ending) :
    Prop :=
  Received j.sizeCp (isChunked req.transferEncoding) req.length s ds e

theorem Gets.unique {j : PutJob} {req : PutRequest} {s : List UInt8}
    {ds ds' : List (UInt8 × List UInt8)} {e e' : Ending} (h : j.Gets req s ds e)
    (h' : j.Gets req s ds' e') : ds = ds' ∧ e = e' := by
  unfold Gets Received at h h'
  split at h
  · next hc =>
    rw [if_pos hc] at h'
    exact h.unique h'
  · next hc =>
    rw [if_neg hc] at h'
    exact ⟨h.1.trans h'.1.symm, h.2.trans h'.2.symm⟩

/-- With the client about to send `unread`, a first record was complete. -/
def HoldsRecord (req : PutRequest) (s unread : List UInt8) : Prop :=
  ∃ ds b ds' e, j.Gets req s (ds ++ (b, unread) :: ds') e ∧
    j.given ((ds ++ [(b, unread)]).map Prod.fst) ≠ []

/-- A first record is complete at some point of the body. -/
def FirstRecord (req : PutRequest) (s : List UInt8) : Prop :=
  ∃ ds e, j.Gets req s ds e ∧ j.given (ds.map Prod.fst) ≠ []

end PutJob

/-- What is asked of a PUT over the stream `s`. -/
structure Careful (j : PutJob) (req : PutRequest) (s : List UInt8) (r : PutOut) : Prop where
  opens : ∀ t, r.fp = some t → j.HoldsRecord req s t.unread ∨
    ∃ b rest, req.WellFormed s b rest ∧ t.unread <:+ rest
  answers : r.answer.success = true → ∃ b rest t, req.WellFormed s b rest ∧ r.fp = some t ∧
    List.Forall₂ (fun r o => j.out r = some o) (j.records b) t.records
  keeps : (¬ ∃ b rest, req.WellFormed s b rest) → ¬ j.FirstRecord req s → r.fp = none

namespace PutJob

variable (j : PutJob)

/-- Nothing but the access method can fail for this body: its end is there, no line of it is too
long and no record of it is refused. -/
def Accepts (body : List UInt8) (e : Ending) : Prop :=
  e.Well ∧ j.truncates body = false ∧ ∀ r ∈ j.records body, j.out r ≠ none

/-- The bodies the handlers are careful with. Those they read to a wrong end are the others:
malformed, but neither cut short in the middle nor without a byte and then without its last CRLF
nor failed after a first complete record. In record mode a well-formed one may hold a record of no
bytes, which is answered 204 and not written. -/
def SafeBody (req : PutRequest) (s : List UInt8) : Prop :=
  ∀ ds e, j.Gets req s ds e → (∃ message, e = .cut message) ∨
    ((∃ b rest, req.WellFormed s b rest) ∧
      ¬ (j.Accepts (ds.map Prod.fst) e ∧ ∃ r ∈ j.records (ds.map Prod.fst), j.out r = some [])) ∨
    (ds = [] ∧ ¬ e.Well) ∨
    (j.given (ds.map Prod.fst) ≠ [] ∧ ¬ j.Accepts (ds.map Prod.fst) e)

/-- A well-formed body is delivered as it is. -/
theorem gets_wellFormed {req : PutRequest} {s b rest : List UInt8}
    (h : req.WellFormed s b rest) :
    ∃ ds e, j.Gets req s ds e ∧ ds.map Prod.fst = b ∧ (e = .last rest ∨ e = .all rest) := by
  unfold PutRequest.WellFormed at h
  unfold Gets Received
  split at h
  · next hc =>
    obtain ⟨ds, hds, hb⟩ := Delivers.ofCoded j.sizeCp h
    exact ⟨ds, _, by rw [if_pos hc]; exact hds, hb, .inl rfl⟩
  · next hc =>
    obtain ⟨rfl, cl, hcl, hd⟩ := h
    have hlen : req.length = b.length := by
      rw [PutRequest.length, hcl]
      exact hd.strtoul
    refine ⟨_, _, by rw [if_neg hc]; exact ⟨rfl, rfl⟩, ?_, .inr ?_⟩
    · rw [tagged_fst, hlen, List.take_left]
    · rw [hlen, if_pos (by simp), List.drop_left]

/-- A byte that completes no record is held. -/
theorem put_holds {h h' : Held} {b : UInt8} (hc : 0 < h.1.contentMax)
    (hp : h.1.pendingLf = false) (hput : j.framer.put h b = (h', none)) :
    (j.framer.flush h').isSome = true ∧ h'.1.pendingLf = false ∧
      h'.1.contentMax = h.1.contentMax := by
  obtain ⟨rl, record⟩ := h
  simp only [framer] at hput
  split at hput
  · next hb =>
    split at hput
    · cases hput
    · cases hput
      exact ⟨by simp [framer, hb], hp, rfl⟩
  · next hb =>
    obtain ⟨rfl, ho⟩ := Prod.mk.inj hput
    obtain ⟨h1, h2, h3⟩ := reclinePut_none hp (Prod.ext rfl ho)
    refine ⟨?_, h1, h2⟩
    have hne : (reclinePut rl b).1.buf ≠ [] := by
      rcases h3 with h3 | ⟨hle, h3⟩
      · simp [h3]
      · rw [h3]
        rintro h0
        rw [h0] at hle
        exact absurd hc (by simpa using hle)
    simp [framer, reclineFlush, hne]

/-- A body with a byte and no complete record leaves a record to the end. -/
theorem flush_of_no_record : ∀ (body : List UInt8) (h : Held), 0 < h.1.contentMax →
    h.1.pendingLf = false → (j.framer.run h body).2 = [] →
    (body ≠ [] ∨ (j.framer.flush h).isSome = true) →
    (j.framer.flush (j.framer.run h body).1).isSome = true := by
  intro body
  induction body with
  | nil =>
    intro h _ _ _ hh
    exact hh.resolve_left (fun h0 => h0 rfl)
  | cons b body ih =>
    intro h hc hp hg _
    rcases hput : j.framer.put h b with ⟨h', o⟩
    simp only [Framer.run, hput, List.append_eq_nil_iff, Option.toList_eq_nil_iff] at hg ⊢
    obtain ⟨rfl, hg⟩ := hg
    obtain ⟨h1, h2, h3⟩ := j.put_holds hc hp hput
    exact ih h' (h3 ▸ hc) h2 hg (.inr h1)

/-! ## The handlers are careful with these bodies -/

/-- A target left open by the delivered bytes was opened with a record in hand. -/
theorem holdsRecord_of_drive {req : PutRequest} {s : List UInt8}
    {ds : List (UInt8 × List UInt8)} {e : Ending} (hg : j.Gets req s ds e) {t : Target}
    (hl : leaves (j.framer.drive j.sink j.fresh none ds) = some t) :
    j.HoldsRecord req s t.unread := by
  obtain ⟨ds', b, ds'', rfl, hrun⟩ := j.drive_opens ds j.fresh t.unread (by rw [hl]; rfl)
  exact ⟨ds', b, ds'', e, hg, hrun⟩

/-- The record left to the end opens the target, if anything has not, with the rest unread. -/
theorem conclude_fp (h : Held) (fp : Option Target) (rest : List UInt8) (m : String)
    (fp' : Option Target) (t : Target)
    (hc : j.conclude h fp rest = .error (m, fp') ∨ j.conclude h fp rest = .ok fp')
    (ht : fp' = some t) : fp.map Target.unread = some t.unread ∨ fp = none ∧ t.unread = rest := by
  subst ht
  unfold conclude at hc
  split at hc
  · rcases hc with hc | hc <;> cases hc
    exact .inl rfl
  · next rec hf =>
    obtain ⟨fp'', he, hu⟩ := j.putRecord_fp "Error writing final record" fp rest rec
    have hfp : fp'' = some t := by
      rcases he with he | he <;> rcases hc with hc | hc <;> rw [he] at hc <;> cases hc <;> rfl
    rw [hfp] at hu
    cases fp with
    | some t' => exact .inl hu.symm
    | none =>
      unfold openWriteTarget at hu
      split at hu
      · next h => cases h
      · split at hu
        · exact .inr ⟨rfl, Option.some.inj hu⟩
        · cases hu

theorem conclude_fresh (fp : Option Target) (rest : List UInt8) :
    j.conclude j.fresh fp rest = .ok fp := by
  have hf : j.framer.flush j.fresh = none := by
    simp only [framer, fresh]
    split <;> rfl
  unfold conclude
  rw [hf]

/-- A target that is open in the end was opened with a record in hand or at the end of the body. -/
theorem outcome_opened {req : PutRequest} {s : List UInt8} {ds : List (UInt8 × List UInt8)}
    {e : Ending} (hg : j.Gets req s ds e) {t : Target} (ht : (j.outcome none ds e).fp = some t) :
    j.HoldsRecord req s t.unread ∨ ∃ rest, (e = .last rest ∨ e = .all rest) ∧
      t.unread <:+ rest ∧ (e.Well ∨ ds ≠ []) ∧ j.given (ds.map Prod.fst) = [] := by
  have hdrive : ∀ {u}, (leaves (j.framer.drive j.sink j.fresh none ds)).map Target.unread = some u →
      j.HoldsRecord req s u := by
    intro u hu
    rcases hl : leaves (j.framer.drive j.sink j.fresh none ds) with _ | t'
    · rw [hl] at hu; cases hu
    · rw [hl] at hu
      exact Option.some.inj hu ▸ j.holdsRecord_of_drive hg hl
  unfold outcome at ht
  split at ht
  · next m fp hd => exact .inl (hdrive (by rw [hd]; exact congrArg _ ht))
  · next h fp hd =>
    rw [hd] at hdrive
    have hgiven : fp = none → j.given (ds.map Prod.fst) = [] := by
      rintro rfl
      by_contra h0
      cases j.took_isSome (Framer.drive_ok hd).2 h0
    have hend : ∀ rest, (e = .last rest ∨ e = .all rest) → ∀ fp',
        (∃ m, j.conclude h fp rest = .error (m, fp')) ∨ j.conclude h fp rest = .ok fp' →
        fp' = some t → j.HoldsRecord req s t.unread ∨ ∃ rest, (e = .last rest ∨ e = .all rest) ∧
          t.unread <:+ rest ∧ (e.Well ∨ ds ≠ []) ∧ j.given (ds.map Prod.fst) = [] := by
      intro rest he fp' hc ht'
      have hor : fp.map Target.unread = some t.unread ∨ fp = none ∧ t.unread = rest := by
        rcases hc with ⟨m, hc⟩ | hc
        · exact j.conclude_fp h fp rest m fp' t (.inl hc) ht'
        · exact j.conclude_fp h fp rest "" fp' t (.inr hc) ht'
      rcases hor with hu | ⟨rfl, hu⟩
      · exact .inl (hdrive hu)
      · refine .inr ⟨rest, he, hu ▸ List.suffix_rfl, .inr ?_, hgiven rfl⟩
        rintro rfl
        cases hd
        rw [j.conclude_fresh] at hc
        rcases hc with ⟨m, hc⟩ | hc <;> cases hc
        cases ht'
    split at ht
    · next m fp' he =>
      rcases j.ended_error he with ⟨rfl, rfl⟩ | ⟨rest, hr, hc⟩
      · exact .inl (hdrive (congrArg _ ht))
      · exact hend rest hr fp' hc ht
    · next fp' unread he =>
      obtain ⟨hw, rest, hr, hsuf, hc⟩ := j.ended_ok he
      have hopen : openWriteTarget j.am unread fp' = some t := by
        split at ht
        · cases ht
        · next t' ho =>
          split at ht
          · rw [ho]; exact ht
          · split at ht <;> rw [ho] <;> exact ht
      rcases openWriteTarget_some hopen with h' | ⟨h', rfl⟩
      · exact hend rest hr fp' (.inr hc) h'
      · exact .inr ⟨rest, hr, hsuf, .inl hw, hgiven (j.conclude_none (h' ▸ hc))⟩

/-- With every record taken the records on the target are those of the body one by one. -/
theorem stored_forall₂ {rs : List (List UInt8)} (hout : ∀ r ∈ rs, j.out r ≠ none)
    (hne : ∀ r ∈ rs, j.out r ≠ some []) :
    List.Forall₂ (fun r o => j.out r = some o) rs (j.stored rs) := by
  induction rs with
  | nil => exact .nil
  | cons r rs ih =>
    rcases ho : j.out r with _ | o
    · exact absurd ho (hout r List.mem_cons_self)
    · have hr : o ≠ [] := fun h => hne r List.mem_cons_self (h ▸ ho)
      rw [← List.singleton_append, stored_append, j.stored_single ho hr]
      exact .cons ho (ih (fun r hr => hout r (List.mem_cons_of_mem _ hr))
        (fun r hr => hne r (List.mem_cons_of_mem _ hr)))

theorem stored_length_le (rs : List (List UInt8)) : (j.stored rs).length ≤ rs.length :=
  List.length_filterMap_le _ _

/-- A record of no bytes is missing on the target. -/
theorem stored_length_lt {rs : List (List UInt8)} (h : ∃ r ∈ rs, j.out r = some []) :
    (j.stored rs).length < rs.length := by
  obtain ⟨r, hr, ho⟩ := h
  obtain ⟨rs₁, rs₂, rfl⟩ := List.append_of_mem hr
  rw [← List.singleton_append, stored_append, stored_append, j.stored_empty ho]
  have h1 := j.stored_length_le rs₁
  have h2 := j.stored_length_le rs₂
  simp only [List.length_append, List.length_nil, List.length_singleton]
  omega

/-- The outcome of a safe body is careful on every access method. -/
theorem careful_of_safe {req : PutRequest} {s : List UInt8} (hsafe : j.SafeBody req s)
    {ds : List (UInt8 × List UInt8)} {e : Ending} (hg : j.Gets req s ds e) :
    Careful j req s (j.outcome none ds e) := by
  have hcases := hsafe ds e hg
  have hWF : ∀ {b rest}, req.WellFormed s b rest →
      ds.map Prod.fst = b ∧ (e = .last rest ∨ e = .all rest) := by
    intro b rest hwf
    obtain ⟨ds', e', hg', hb, he⟩ := j.gets_wellFormed hwf
    obtain ⟨rfl, rfl⟩ := hg.unique hg'
    exact ⟨hb, he⟩
  have hopens : ∀ t, (j.outcome none ds e).fp = some t → j.HoldsRecord req s t.unread ∨
      ∃ b rest, req.WellFormed s b rest ∧ t.unread <:+ rest := by
    intro t ht
    rcases j.outcome_opened hg ht with h | ⟨rest, he, hsuf, hend⟩
    · exact .inl h
    · rcases hcases with ⟨m, rfl⟩ | ⟨⟨b, rest', hwf⟩, -⟩ | ⟨h0, hw⟩ | ⟨h0, -⟩
      · rcases he with he | he <;> cases he
      · obtain ⟨-, he'⟩ := hWF hwf
        refine .inr ⟨b, rest', hwf, ?_⟩
        rcases he with rfl | rfl <;> rcases he' with he' | he' <;> cases he' <;> exact hsuf
      · exact absurd hend.1 (fun h => h.elim hw (fun h => h h0))
      · exact absurd hend.2 h0
  refine ⟨hopens, ?_, ?_⟩
  · intro hsucc
    obtain ⟨hw, htr, hout, t, ht, hrec⟩ := j.outcome_success hsucc
    rcases hcases with ⟨m, rfl⟩ | ⟨⟨b, rest, hwf⟩, hacc⟩ | ⟨-, h0⟩ | ⟨-, hacc⟩
    · exact hw.elim
    · obtain ⟨rfl, -⟩ := hWF hwf
      refine ⟨_, rest, t, hwf, ht, ?_⟩
      rw [hrec]
      exact j.stored_forall₂ hout fun r hr ho => hacc ⟨⟨hw, htr, hout⟩, r, hr, ho⟩
    · exact absurd hw h0
    · exact absurd ⟨hw, htr, hout⟩ hacc
  · intro hwf hfirst
    rcases hfp : (j.outcome none ds e).fp with _ | t
    · rfl
    · rcases hopens t hfp with ⟨ds', b, ds'', e', hg', hrun⟩ | ⟨b, rest, h, -⟩
      · refine absurd ⟨_, e', hg', ?_⟩ hfirst
        rw [← List.singleton_append, ← List.append_assoc, List.map_append]
        exact j.given_append _ _ hrun
      · exact absurd ⟨b, rest, h⟩ hwf

theorem openWriteTarget_sound (unread : List UInt8) (fp : Option Target) :
    ∃ t, openWriteTarget .sound unread fp = some t := by
  cases fp with
  | none => exact ⟨_, rfl⟩
  | some t => exact ⟨t, rfl⟩

/-- On a sound access method a record opens the target, refused or not. -/
theorem putRecord_sound_fp (hs : j.am = .sound) {message m : String} {fp fp' : Option Target}
    {unread record : List UInt8}
    (h : j.putRecord message fp unread record = .error (m, fp') ∨
      j.putRecord message fp unread record = .ok fp') : fp'.isSome = true := by
  obtain ⟨fp'', he, hu⟩ := j.putRecord_fp message fp unread record
  have hfp : fp'' = fp' := by
    rcases he with he | he <;> rcases h with h | h <;> rw [he] at h <;> cases h <;> rfl
  obtain ⟨t, ht⟩ := openWriteTarget_sound unread fp
  rw [hs, ht, hfp] at hu
  rw [← Option.isSome_map (f := Target.unread), hu]
  rfl

theorem conclude_sound_fp (hs : j.am = .sound) {h : Held} {m : String} {fp fp' : Option Target}
    {rest : List UInt8}
    (hc : j.conclude h fp rest = .error (m, fp') ∨ j.conclude h fp rest = .ok fp')
    (h0 : fp.isSome = true ∨ (j.framer.flush h).isSome = true) : fp'.isSome = true := by
  unfold conclude at hc
  split at hc
  · next hf =>
    rw [hf] at h0
    rcases hc with hc | hc <;> cases hc
    exact h0.resolve_right (fun h => nomatch h)
  · exact j.putRecord_sound_fp hs hc

/-- On a sound access method a body that ends well, or holds a byte, opens the target. -/
theorem outcome_sound_opens (hs : j.am = .sound) (hc : 0 < j.dcb.contentMax)
    {ds : List (UInt8 × List UInt8)} {e : Ending} (he : ∀ m, e ≠ .cut m)
    (h0 : ds ≠ [] ∨ e.Well) : ∃ t, (j.outcome none ds e).fp = some t := by
  rw [← Option.isSome_iff_exists]
  have hok : ∀ {h fp fp' unread}, j.framer.drive j.sink j.fresh none ds = .ok (h, fp) →
      j.ended h fp e = .ok (fp', unread) → (j.outcome none ds e).fp.isSome = true := by
    intro h fp fp' unread hd hend
    obtain ⟨t, ht⟩ := openWriteTarget_sound unread fp'
    unfold outcome
    simp only [hd, hend, hs, ht]
    split
    · rfl
    · split <;> rfl
  by_cases hds : ds = []
  · subst hds
    have hw := h0.resolve_left (fun h => h rfl)
    cases e with
    | cut m => exact hw.elim
    | all rest =>
      refine @hok j.fresh none none rest rfl ?_
      simp only [ended, conclude_fresh]
      rfl
    | last rest =>
      have hcrlf : rest.take 2 = [Chunked.CR, Chunked.LF] := hw
      refine @hok j.fresh none none (rest.drop 2) rfl ?_
      simp only [ended, conclude_fresh, hcrlf]
      rfl
  · cases hd : j.framer.drive j.sink j.fresh none ds with
    | error x =>
      obtain ⟨rs, r, rs', fp', u, -, -, hsink⟩ := Framer.drive_error hd
      unfold outcome
      rw [hd]
      exact j.putRecord_sound_fp hs (m := x.1) (.inl hsink)
    | ok p =>
      obtain ⟨h, fp⟩ := p
      have hheld : fp.isSome = true ∨ (j.framer.flush h).isSome = true := by
        obtain ⟨hst, htook⟩ := Framer.drive_ok hd
        by_cases hg : j.given (ds.map Prod.fst) = []
        · rw [hst]
          exact .inr (j.flush_of_no_record _ j.fresh hc rfl hg (.inl (by simpa using hds)))
        · exact .inl (j.took_isSome htook hg)
      cases hend : j.ended h fp e with
      | ok q => exact hok hd hend
      | error q =>
        have hfp : (j.outcome none ds e).fp = q.2 := by
          unfold outcome
          rw [hd]
          simp only [hend]
        rw [hfp]
        rcases j.ended_error hend with ⟨hcut, -⟩ | ⟨rest, -, ⟨m, hcon⟩ | hcon⟩
        · exact absurd hcut (he _)
        · exact j.conclude_sound_fp hs (.inl hcon) hheld
        · exact j.conclude_sound_fp hs (m := "") (.inr hcon) hheld

/-- On a sound access method the handlers are careful with safe bodies only. -/
theorem safe_of_careful (hs : j.am = .sound) (hc : 0 < j.dcb.contentMax) {req : PutRequest}
    {s : List UInt8} {ds : List (UInt8 × List UInt8)} {e : Ending} (hg : j.Gets req s ds e)
    (h : Careful j req s (j.outcome none ds e)) : j.SafeBody req s := by
  intro ds' e' hg'
  obtain ⟨rfl, rfl⟩ := hg.unique hg'
  by_cases hcut : ∃ m, e = .cut m
  · exact .inl hcut
  have hacc : j.Accepts (ds.map Prod.fst) e → ∃ b rest t, req.WellFormed s b rest ∧
      (j.outcome none ds e).fp = some t ∧
      List.Forall₂ (fun r o => j.out r = some o) (j.records b) t.records := by
    rintro ⟨hw, htr, hout⟩
    refine h.answers ?_
    rw [j.outcome_sound hs hw htr hout]
    rfl
  by_cases hwf : ∃ b rest, req.WellFormed s b rest
  · refine .inr (.inl ⟨hwf, ?_⟩)
    rintro ⟨ha, hempty⟩
    obtain ⟨b, rest, t, hb, ht, hrec⟩ := hacc ha
    obtain ⟨ds', e', hg', rfl, -⟩ := j.gets_wellFormed hb
    obtain ⟨rfl, rfl⟩ := hg.unique hg'
    have hsucc : (j.outcome none ds e).answer.success = true := by
      rw [j.outcome_sound hs ha.1 ha.2.1 ha.2.2]
      rfl
    obtain ⟨-, -, -, t', ht', hst⟩ := j.outcome_success hsucc
    rw [ht] at ht'
    cases ht'
    have := hrec.length_eq
    rw [hst] at this
    exact absurd this (Nat.ne_of_gt (j.stored_length_lt hempty))
  have hnot : ¬ j.Accepts (ds.map Prod.fst) e := fun ha => by
    obtain ⟨b, rest, -, hb, -⟩ := hacc ha
    exact hwf ⟨b, rest, hb⟩
  by_cases hfirst : j.given (ds.map Prod.fst) = []
  · refine .inr (.inr (.inl ?_))
    by_contra hcon
    obtain ⟨t, ht⟩ := j.outcome_sound_opens hs hc (fun m hm => hcut ⟨m, hm⟩)
      (show ds ≠ [] ∨ e.Well by
        by_contra h0
        rw [not_or, not_not] at h0
        exact hcon h0)
    rcases h.opens t ht with ⟨ds', b, ds'', e', hg', hrun⟩ | ⟨b, rest, hb, -⟩
    · obtain ⟨rfl, rfl⟩ := hg.unique hg'
      refine j.given_append _ (ds''.map Prod.fst) hrun ?_
      rw [← List.map_append, List.append_assoc, List.singleton_append]
      exact hfirst
    · exact hwf ⟨b, rest, hb⟩
  · exact .inr (.inr (.inr ⟨hfirst, hnot⟩))

/-- The job with another access method. -/
def on (am : AccessMethod) : PutJob := { j with am := am }

end PutJob

/-! ## The handlers -/

/-- A PUT is careful: refused for its data type before it opens anything, or careful as the job its
data type makes of it. -/
def CarefulPut (job : DataType → FileEnc → PutJob) (req : PutRequest) (s : List UInt8)
    (r : PutOut) : Prop :=
  match parseDataType req.dataType with
  | none => r.fp = none ∧ r.answer.success = false
  | some (dataType, enc) => Careful (job dataType enc) req s r

/-- The sequential handler answers a request for an existing data set before it reads the body. -/
def DatasetSystem.RefusesPut (sys : DatasetSystem) (req : PutRequest) (dcb : Dcb) : Prop :=
  sys.refused.isSome ∨ req.unframed ∨ sys.ifMatch.isSome ∨ dcb.piece = 0 ∨ dcb.contentMax = 0 ∨
    sys.storage = false

/-- The member handler answers a request for an existing member before it reads the body. -/
def MemberSystem.RefusesPut (sys : MemberSystem) (req : PutRequest) (dcb : Dcb) : Prop :=
  sys.refused.isSome ∨ req.unframed ∨ sys.cataloged = false ∨ sys.ifMatch.isSome ∨
    dcb.piece = 0 ∨ dcb.contentMax = 0 ∨ sys.storage = false

theorem Careful.ofRefused {j : PutJob} {req : PutRequest} {s : List UInt8} {r : PutOut}
    (h : r.fp = none ∧ r.answer.success = false) : Careful j req s r where
  opens t ht := by rw [h.1] at ht; cases ht
  answers hs := by rw [h.2] at hs; cases hs
  keeps _ _ := h.1

/-- What is asked of a PUT does not depend on the access method. -/
theorem Careful.on {j : PutJob} {req : PutRequest} {s : List UInt8} {r : PutOut}
    (am : AccessMethod) : Careful (j.on am) req s r ↔ Careful j req s r :=
  ⟨fun h => ⟨h.opens, h.answers, h.keeps⟩, fun h => ⟨h.opens, h.answers, h.keeps⟩⟩

/-- From the buffer on: a body is handled with care on every access method when it is safe. -/
theorem putBody_careful_iff (j : PutJob) (hp : 0 < j.dcb.piece) (hc : 0 < j.dcb.contentMax)
    (req : PutRequest) (c : Conn) :
    (∀ am, Careful j req c.unread
      ((j.on am).putBody (isChunked req.transferEncoding) req.length none c)) ↔
      j.SafeBody req c.unread := by
  constructor
  · intro h
    obtain ⟨ds, e, hg, heq⟩ := (j.on .sound).putBody_eq hp (isChunked req.transferEncoding)
      req.length none c
    have hcare := h .sound
    rw [heq] at hcare
    exact (j.on .sound).safe_of_careful rfl hc hg ((Careful.on .sound).mpr hcare)
  · intro h am
    obtain ⟨ds, e, hg, heq⟩ := (j.on am).putBody_eq hp (isChunked req.transferEncoding)
      req.length none c
    rw [heq]
    exact (Careful.on am).mp ((j.on am).careful_of_safe h hg)

theorem missingLength_success : missingLength.success = false := handleError_success _ _

/-- The sequential handler for an existing data set, by its checks. -/
theorem datasetPutHandler_existing (sys : DatasetSystem) (dcb : Dcb) (req : PutRequest) (c : Conn)
    {dataType : DataType} {enc : FileEnc} (hd : parseDataType req.dataType = some (dataType, enc)) :
    (sys.RefusesPut req dcb ∧ ∀ am,
      (datasetPutHandler { sys with dcb := some dcb, am := am } req c).fp = none ∧
      (datasetPutHandler { sys with dcb := some dcb, am := am } req c).answer.success = false) ∨
    (¬ sys.RefusesPut req dcb ∧ 0 < dcb.piece ∧ 0 < dcb.contentMax ∧ ∀ am,
      datasetPutHandler { sys with dcb := some dcb, am := am } req c =
        ((datasetPutJob sys dataType enc dcb).on am).putBody (isChunked req.transferEncoding)
          req.length none c) := by
  unfold datasetPutHandler DatasetSystem.RefusesPut
  simp only [hd]
  cases hr : sys.refused with
  | some a => exact .inl ⟨.inl rfl, fun _ => ⟨rfl, a.2⟩⟩
  | none =>
    by_cases hu : req.unframed = true
    · simp only [if_pos hu]
      exact .inl ⟨.inr (.inl hu), fun _ => ⟨trivial, missingLength_success⟩⟩
    simp only [if_neg hu]
    cases hm : sys.ifMatch with
    | some a => exact .inl ⟨.inr (.inr (.inl rfl)), fun _ => ⟨rfl, a.2⟩⟩
    | none =>
      simp only
      by_cases hz : dcb.piece = 0 ∨ dcb.contentMax = 0
      · simp only [if_pos hz]
        exact .inl ⟨by tauto, fun _ => ⟨trivial, handleError_success _ _⟩⟩
      simp only [if_neg hz]
      by_cases hs : sys.storage = false
      · simp only [if_pos hs]
        exact .inl ⟨by tauto, fun _ => ⟨trivial, handleError_success _ _⟩⟩
      simp only [if_neg hs]
      rw [not_or] at hz
      refine .inr ⟨?_, Nat.pos_of_ne_zero hz.1, Nat.pos_of_ne_zero hz.2, fun _ => rfl⟩
      simp [hu, hz, hs]

/-- The member handler for an existing member, by its checks. -/
theorem memberPutHandler_existing (sys : MemberSystem) (dcb : Dcb) (req : PutRequest) (c : Conn)
    {dataType : DataType} {enc : FileEnc} (hd : parseDataType req.dataType = some (dataType, enc)) :
    (sys.RefusesPut req dcb ∧ ∀ am,
      (memberPutHandler { sys with member := some dcb, am := am } req c).fp = none ∧
      (memberPutHandler { sys with member := some dcb, am := am } req c).answer.success = false) ∨
    (¬ sys.RefusesPut req dcb ∧ 0 < dcb.piece ∧ 0 < dcb.contentMax ∧ ∀ am,
      memberPutHandler { sys with member := some dcb, am := am } req c =
        ((memberPutJob sys dataType enc dcb).on am).putBody (isChunked req.transferEncoding)
          req.length none c) := by
  unfold memberPutHandler MemberSystem.RefusesPut
  simp only [hd]
  cases hr : sys.refused with
  | some a => exact .inl ⟨.inl rfl, fun _ => ⟨rfl, a.2⟩⟩
  | none =>
    by_cases hu : req.unframed = true
    · simp only [if_pos hu]
      exact .inl ⟨.inr (.inl hu), fun _ => ⟨trivial, missingLength_success⟩⟩
    simp only [if_neg hu]
    by_cases hcat : sys.cataloged = false
    · simp only [if_pos hcat]
      exact .inl ⟨.inr (.inr (.inl hcat)), fun _ => ⟨trivial, datasetNotFound.2⟩⟩
    simp only [if_neg hcat]
    cases hm : sys.ifMatch with
    | some a => exact .inl ⟨.inr (.inr (.inr (.inl rfl))), fun _ => ⟨rfl, a.2⟩⟩
    | none =>
      simp only [Option.isSome_some, if_true, Option.isNone_some, Bool.false_eq_true, false_and,
        if_false, Option.getD_some]
      by_cases hz : dcb.piece = 0 ∨ dcb.contentMax = 0
      · simp only [if_pos hz]
        exact .inl ⟨by tauto, fun _ => ⟨trivial, handleError_success _ _⟩⟩
      simp only [if_neg hz]
      by_cases hs : sys.storage = false
      · simp only [if_pos hs]
        exact .inl ⟨by tauto, fun _ => ⟨trivial, handleError_success _ _⟩⟩
      simp only [if_neg hs]
      rw [not_or] at hz
      refine .inr ⟨?_, Nat.pos_of_ne_zero hz.1, Nat.pos_of_ne_zero hz.2, fun _ => rfl⟩
      simp [hu, hcat, hz, hs]

theorem sendBadEncoding_success (value : Option (List Char)) :
    (sendBadEncoding value).success = false := rfl

/-- A request whose data type is refused opens nothing. -/
theorem datasetPutHandler_badType (sys : DatasetSystem) (req : PutRequest) (c : Conn)
    (hd : parseDataType req.dataType = none) : (datasetPutHandler sys req c).fp = none ∧
      (datasetPutHandler sys req c).answer.success = false := by
  unfold datasetPutHandler
  cases sys.refused with
  | some a => exact ⟨rfl, a.2⟩
  | none =>
    simp only [hd]
    exact ⟨trivial, sendBadEncoding_success _⟩

theorem memberPutHandler_badType (sys : MemberSystem) (req : PutRequest) (c : Conn)
    (hd : parseDataType req.dataType = none) : (memberPutHandler sys req c).fp = none ∧
      (memberPutHandler sys req c).answer.success = false := by
  unfold memberPutHandler
  cases sys.refused with
  | some a => exact ⟨rfl, a.2⟩
  | none =>
    simp only [hd]
    split
    · exact ⟨rfl, missingLength_success⟩
    · exact ⟨rfl, sendBadEncoding_success _⟩

/-- Either handler, writing to a target that exists, is careful on every access method exactly with
the requests it refuses before the body and with the safe bodies. -/
theorem putHandlers_careful_iff (sys : DatasetSystem) (msys : MemberSystem) (dcb : Dcb)
    (req : PutRequest) (c : Conn) :
    ((∀ am, CarefulPut (fun dataType enc => datasetPutJob sys dataType enc dcb) req c.unread
        (datasetPutHandler { sys with dcb := some dcb, am := am } req c)) ↔
      ∀ dataType enc, parseDataType req.dataType = some (dataType, enc) →
        sys.RefusesPut req dcb ∨ (datasetPutJob sys dataType enc dcb).SafeBody req c.unread) ∧
    ((∀ am, CarefulPut (fun dataType enc => memberPutJob msys dataType enc dcb) req c.unread
        (memberPutHandler { msys with member := some dcb, am := am } req c)) ↔
      ∀ dataType enc, parseDataType req.dataType = some (dataType, enc) →
        msys.RefusesPut req dcb ∨ (memberPutJob msys dataType enc dcb).SafeBody req c.unread) := by
  unfold CarefulPut
  cases hd : parseDataType req.dataType with
  | none =>
    refine ⟨iff_of_true (fun am => datasetPutHandler_badType _ req c hd) nofun,
      iff_of_true (fun am => memberPutHandler_badType _ req c hd) nofun⟩
  | some p =>
    obtain ⟨dataType, enc⟩ := p
    simp only [Option.some.injEq, Prod.mk.injEq, and_imp]
    constructor
    · rcases datasetPutHandler_existing sys dcb req c hd with ⟨href, h⟩ | ⟨href, hp, hc, h⟩
      · exact iff_of_true (fun am => .ofRefused (h am)) fun _ _ _ _ => .inl href
      · simp only [h]
        rw [putBody_careful_iff (datasetPutJob sys dataType enc dcb) hp hc]
        constructor
        · rintro hs _ _ rfl rfl
          exact .inr hs
        · exact fun hs => (hs _ _ rfl rfl).resolve_left href
    · rcases memberPutHandler_existing msys dcb req c hd with ⟨href, h⟩ | ⟨href, hp, hc, h⟩
      · exact iff_of_true (fun am => .ofRefused (h am)) fun _ _ _ _ => .inl href
      · simp only [h]
        rw [putBody_careful_iff (memberPutJob msys dataType enc dcb) hp hc]
        constructor
        · rintro hs _ _ rfl rfl
          exact .inr hs
        · exact fun hs => (hs _ _ rfl rfl).resolve_left href

theorem not_declaresLength {cl : List Char} {n : Nat} {c : Char} (hm : c ∈ cl) (hb : c ≠ ' ')
    (hd : CLib.isDigit 10 c = false) : ¬ DeclaresLength cl n := by
  intro h
  obtain ⟨sp, ds, sp', rfl, hsp, hsp', -, hds, -⟩ := h.split
  rcases List.mem_append.mp hm with hm | hm
  · exact hb (hsp c hm)
  · rcases List.mem_append.mp hm with hm | hm
    · rw [hds c hm] at hd; cases hd
    · exact hb (hsp' c hm)

/-- A data set of fixed 80-byte records on a system where nothing fails. -/
def soundDataset : DatasetSystem :=
  ⟨⟨.cp037, .cp037⟩, none, some ⟨0x90, 80, 800⟩, none, true, .sound⟩

/-- A Content-Length that is no number empties the data set and is answered 204. -/
theorem datasetPutHandler_careless : ¬ CarefulPut
    (fun dataType enc => datasetPutJob soundDataset dataType enc ⟨0x90, 80, 800⟩)
    ⟨none, none, some "abc".toList⟩ [0x4E, 0x45, 0x57]
    (datasetPutHandler soundDataset ⟨none, none, some "abc".toList⟩
      ⟨[0x4E, 0x45, 0x57], []⟩) := by
  intro h
  obtain ⟨b, rest, t, hwf, -⟩ := Careful.answers h (by decide +kernel)
  obtain ⟨-, cl, hcl, hd⟩ : [0x4E, 0x45, 0x57] = b ++ rest ∧ ∃ cl, some "abc".toList = some cl ∧
    DeclaresLength cl b.length := hwf
  cases hcl
  exact not_declaresLength (c := 'a') (by decide) (by decide) (by decide) hd

end Mvsmf
