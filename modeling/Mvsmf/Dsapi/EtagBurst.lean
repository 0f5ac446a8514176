import Mvsmf.Lib.Crc
import Mvsmf.Dsapi.IfMatch

/-!
# What a stamp tells apart

The byte step of the stamp is eight shifts of a cyclic code, so two streams that differ in four bytes
on end have different stamps, wherever the bytes are and whatever follows them. The lengths of the
records go in with the records; they are the same on both sides.
-/

namespace Mvsmf

/-- The same length, and a difference that `n` places on end hold all of. -/
def DifferWithin {α : Type} (n : Nat) (s s' : List α) : Prop :=
  s.length = s'.length ∧ s ≠ s' ∧ ∃ i, ∀ j, j < i ∨ i + n ≤ j → s[j]? = s'[j]?

/-- Records of the same lengths, all the same but one that differs in `n` bytes on end. -/
def RecordsDifferWithin (n : Nat) (recs recs' : List (List UInt8)) : Prop :=
  recs.map List.length = recs'.map List.length ∧
  ∃ (k : Nat) (r r' : List UInt8), recs[k]? = some r ∧ recs'[k]? = some r' ∧ DifferWithin n r r' ∧
    ∀ j ≠ k, recs[j]? = recs'[j]?

theorem DifferWithin.parts {α : Type} {n : Nat} {s s' : List α} (h : DifferWithin n s s') :
    ∃ a w w' z, s = a ++ (w ++ z) ∧ s' = a ++ (w' ++ z) ∧ w.length = w'.length ∧ w.length ≤ n ∧
      w ≠ w' := by
  obtain ⟨hlen, hne, i, hsame⟩ := h
  have hfront : s.take i = s'.take i := by
    apply List.ext_getElem?
    intro j
    rw [List.getElem?_take, List.getElem?_take]
    split
    next hj => exact hsame j (Or.inl hj)
    next => rfl
  have hback : (s.drop i).drop n = (s'.drop i).drop n := by
    apply List.ext_getElem?
    intro j
    rw [List.drop_drop, List.drop_drop, List.getElem?_drop, List.getElem?_drop]
    exact hsame _ (Or.inr (by omega))
  refine ⟨s.take i, (s.drop i).take n, (s'.drop i).take n, (s.drop i).drop n, ?_, ?_, ?_, ?_, ?_⟩
  · rw [List.take_append_drop, List.take_append_drop]
  · rw [hfront, hback, List.take_append_drop, List.take_append_drop]
  · simp [hlen]
  · exact List.length_take_le _ _
  · intro hw
    apply hne
    rw [← List.take_append_drop i s, ← List.take_append_drop n (s.drop i), hfront, hw, hback,
      List.take_append_drop, List.take_append_drop]

theorem RecordsDifferWithin.parts {n : Nat} {recs recs' : List (List UInt8)}
    (h : RecordsDifferWithin n recs recs') :
    ∃ front r r' back, recs = front ++ r :: back ∧ recs' = front ++ r' :: back ∧
      DifferWithin n r r' := by
  obtain ⟨-, k, r, r', hr, hr', hdiff, hsame⟩ := h
  have hfront : recs.take k = recs'.take k := by
    apply List.ext_getElem?
    intro j
    rw [List.getElem?_take, List.getElem?_take]
    split
    next hj => exact hsame j (Nat.ne_of_lt hj)
    next => rfl
  have hback : recs.drop (k + 1) = recs'.drop (k + 1) := by
    apply List.ext_getElem?
    intro j
    rw [List.getElem?_drop, List.getElem?_drop]
    exact hsame _ (by omega)
  obtain ⟨hk, rfl⟩ := List.getElem?_eq_some_iff.mp hr
  obtain ⟨hk', rfl⟩ := List.getElem?_eq_some_iff.mp hr'
  refine ⟨recs.take k, _, _, recs.drop (k + 1), ?_, ?_, hdiff⟩
  · rw [← List.drop_eq_getElem_cons hk, List.take_append_drop]
  · rw [hfront, hback, ← List.drop_eq_getElem_cons hk', List.take_append_drop]

/-! ## The byte step as a cyclic code -/

/-- One of the eight steps. -/
def etagShift (crc : UInt32) : UInt32 :=
  if crc &&& 1 = 1 then (crc >>> 1) ^^^ ETAG_POLY else crc >>> 1

theorem etagByte_eq (crc : UInt32) (b : UInt8) :
    etagByte crc b = etagShift^[8] (crc ^^^ b.toUInt32) := by
  rw [etagByte]
  exact List.foldl_const etagShift _ (List.range 8)

theorem and_one_eq (crc : UInt32) : crc &&& 1 = 1 ↔ crc.toBitVec.getLsbD 0 = true := by
  rw [← UInt32.toBitVec_inj, UInt32.toBitVec_and]
  change crc.toBitVec &&& 1#32 = 1#32 ↔ _
  rw [BitVec.and_one_eq_setWidth_ofBool_getLsbD]
  cases crc.toBitVec.getLsbD 0
  · decide
  · decide

theorem etagShift_toBitVec (crc : UInt32) :
    (etagShift crc).toBitVec = Crc.shift ETAG_POLY.toBitVec crc.toBitVec := by
  rw [etagShift, Crc.shift]
  split
  next h =>
    rw [if_pos ((and_one_eq crc).mp h)]
    simp
  next h =>
    rw [if_neg fun hlow => h ((and_one_eq crc).mpr hlow)]
    simp

theorem etagByte_toBitVec (crc : UInt32) (b : UInt8) :
    (etagByte crc b).toBitVec = Crc.feed ETAG_POLY.toBitVec crc.toBitVec b.toBitVec := by
  have hshifts : ∀ n (x : UInt32), (etagShift^[n] x).toBitVec =
      (Crc.shift ETAG_POLY.toBitVec)^[n] x.toBitVec := by
    intro n
    induction n with
    | zero => exact fun _ => rfl
    | succ n ih =>
      intro x
      rw [Function.iterate_succ_apply, ih, etagShift_toBitVec, ← Function.iterate_succ_apply]
  rw [etagByte_eq, hshifts, UInt32.toBitVec_xor]
  rfl

theorem foldl_etagByte_toBitVec (crc : UInt32) (buf : List UInt8) :
    (buf.foldl etagByte crc).toBitVec =
      (buf.map UInt8.toBitVec).foldl (Crc.feed ETAG_POLY.toBitVec) crc.toBitVec := by
  induction buf generalizing crc with
  | nil => rfl
  | cons b buf ih =>
    rw [List.foldl_cons, ih, etagByte_toBitVec]
    rfl

theorem etagPoly_msb : ETAG_POLY.toBitVec.msb = true := by decide

/-- What was different stays different. -/
theorem foldl_etagByte_inj {crc crc' : UInt32} (buf : List UInt8)
    (h : buf.foldl etagByte crc = buf.foldl etagByte crc') : crc = crc' := by
  rw [← UInt32.toBitVec_inj, foldl_etagByte_toBitVec, foldl_etagByte_toBitVec] at h
  exact UInt32.toBitVec_inj.mp (Crc.foldl_feed_inj etagPoly_msb _ h)

/-- Four bytes are told apart. -/
theorem foldl_etagByte_burst (crc : UInt32) {w w' : List UInt8} (hlen : w.length = w'.length)
    (hroom : w.length ≤ 4) (h : w.foldl etagByte crc = w'.foldl etagByte crc) : w = w' := by
  rw [← UInt32.toBitVec_inj, foldl_etagByte_toBitVec, foldl_etagByte_toBitVec] at h
  have hmap : w.map UInt8.toBitVec = w'.map UInt8.toBitVec := by
    apply Crc.foldl_feed_injective etagPoly_msb crc.toBitVec
    · simp [hlen]
    · rw [List.length_map]
      omega
    · exact h
  exact List.map_injective_iff.mpr (fun _ _ => UInt8.toBitVec_inj.mp) hmap

theorem foldl_etagByte_ne (crc : UInt32) {s s' : List UInt8} (h : DifferWithin 4 s s') :
    s.foldl etagByte crc ≠ s'.foldl etagByte crc := by
  obtain ⟨a, w, w', z, rfl, rfl, hlen, hroom, hne⟩ := h.parts
  intro heq
  simp only [List.foldl_append] at heq
  exact hne (foldl_etagByte_burst _ hlen hroom (foldl_etagByte_inj z heq))

/-! ## The digits -/

theorem etagFinal_crc {ctx ctx' : EtagCtx} (h : etagFinal ctx = etagFinal ctx') :
    ctx.crc = ctx'.crc := by
  rw [etagFinal, etagFinal] at h
  have hcrc := (List.append_inj h (by rw [(hex8_isHex _).1, (hex8_isHex _).1])).1
  have hxor := congrArg (· ^^^ 0xFFFFFFFF) (hex8_injective hcrc)
  simpa [UInt32.xor_assoc] using hxor

/-! ## The stamps -/

/-- A record whose length goes in with it. -/
theorem etagUpdate_burst (ctx : EtagCtx) {r r' : List UInt8} (h : DifferWithin 4 r r') :
    (etagUpdate ctx r).crc ≠ (etagUpdate ctx r').crc := by
  simp only [etagUpdate, h.1]
  exact foldl_etagByte_ne _ h

theorem etagUpdate_inj {ctx ctx' : EtagCtx} (r : List UInt8)
    (h : (etagUpdate ctx r).crc = (etagUpdate ctx' r).crc) : ctx.crc = ctx'.crc := by
  simp only [etagUpdate] at h
  have hlen := foldl_etagByte_inj r h
  simp only [← List.foldl_map] at hlen
  exact foldl_etagByte_inj _ hlen

theorem foldl_etagUpdate_inj {ctx ctx' : EtagCtx} (recs : List (List UInt8))
    (h : (recs.foldl etagUpdate ctx).crc = (recs.foldl etagUpdate ctx').crc) :
    ctx.crc = ctx'.crc := by
  induction recs generalizing ctx ctx' with
  | nil => exact h
  | cons r recs ih => exact etagUpdate_inj r (ih h)

/-- **A change of four bytes on end changes the stamp.** A stream's, however the two are cut into
reads, and that of a sequence of records whose lengths stay; and the stamp of a stream is the same
however it is cut. -/
theorem etag_burst :
    (∀ reads reads', DifferWithin 4 reads.flatten reads'.flatten →
      ussEtag reads ≠ ussEtag reads') ∧
    (∀ recs recs', RecordsDifferWithin 4 recs recs' → recordsEtag recs ≠ recordsEtag recs') ∧
    ∀ reads reads' : List (List UInt8), reads.flatten = reads'.flatten →
      ussEtag reads = ussEtag reads' := by
  refine ⟨fun reads reads' hdiff heq => ?_, fun recs recs' hdiff heq => ?_,
    fun reads reads' hflat => ?_⟩
  · rw [ussEtag_flatten, ussEtag_flatten] at heq
    exact foldl_etagByte_ne _ hdiff (etagFinal_crc heq)
  · obtain ⟨front, r, r', back, rfl, rfl, hr⟩ := hdiff.parts
    have hcrc := etagFinal_crc heq
    simp only [List.foldl_append, List.foldl_cons] at hcrc
    exact etagUpdate_burst _ hr (foldl_etagUpdate_inj back hcrc)
  · rw [ussEtag_flatten, ussEtag_flatten, hflat]

/-- A byte of a stream, and one of a record. -/
theorem etag_burst_one :
    ussEtag [[1, 2], [3]] ≠ ussEtag [[1], [2, 4]] ∧
    recordsEtag [[1, 2], [3]] ≠ recordsEtag [[1, 2], [4]] ∧
    ussEtag [[1, 2], [3]] = ussEtag [[1], [2, 3]] := by
  refine ⟨etag_burst.1 _ _ ⟨rfl, by decide, 0, ?_⟩, etag_burst.2.1 _ _ ⟨rfl, 1, [3], [4], rfl, rfl,
    ⟨rfl, by decide, 0, ?_⟩, ?_⟩, etag_burst.2.2 _ _ rfl⟩
  · intro j hj
    rw [List.getElem?_eq_none (by simp; omega), List.getElem?_eq_none (by simp; omega)]
  · intro j hj
    rw [List.getElem?_eq_none (by simp; omega), List.getElem?_eq_none (by simp; omega)]
  · intro j hj
    match j with
    | 0 => rfl
    | 1 => contradiction
    | _ + 2 => rfl

end Mvsmf
