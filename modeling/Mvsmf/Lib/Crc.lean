import Mathlib

/-!
# Cyclic codes

A register that is shifted towards its low end, the polynomial going into it with every bit that
falls out. The shift is linear in exclusive or, and if the polynomial has the top bit nothing is
lost in it. A message is fed in digits of `k` bits; as many of them as the register has room for are
all still there behind the last of them.
-/

namespace Crc

variable {w : Nat}

/-- One shift of the register. -/
def shift (P x : BitVec w) : BitVec w :=
  if x.getLsbD 0 then (x >>> 1) ^^^ P else x >>> 1

theorem shift_xor (P x y : BitVec w) : shift P (x ^^^ y) = shift P x ^^^ shift P y := by
  simp only [shift, BitVec.getLsbD_xor, BitVec.ushiftRight_xor_distrib]
  cases x.getLsbD 0 <;> cases y.getLsbD 0
  · simp
  · simp [BitVec.xor_assoc]
  · simp only [Bool.bne_false, if_true, Bool.false_eq_true, if_false]
    ac_rfl
  · have hcancel : x >>> 1 ^^^ P ^^^ (y >>> 1 ^^^ P) = x >>> 1 ^^^ y >>> 1 ^^^ (P ^^^ P) := by
      ac_rfl
    simp [hcancel]

theorem eq_of_xor_eq_zero {x y : BitVec w} (h : x ^^^ y = 0) : x = y := by
  calc
    x = x ^^^ y ^^^ y := by rw [BitVec.xor_assoc, BitVec.xor_self, BitVec.xor_zero]
    _ = y := by simp [h]

/-- What falls out of the register is seen in the top bit. -/
theorem eq_zero_of_shift {P x : BitVec w} (hP : P.msb = true) (h : shift P x = 0) : x = 0 := by
  cases hlow : x.getLsbD 0 with
  | true =>
    have hmsb : (x >>> 1 ^^^ P).msb = true := by
      rw [BitVec.msb_xor, hP, BitVec.msb_ushiftRight]
      simp
    rw [shift, hlow, if_pos rfl] at h
    rw [h] at hmsb
    simp at hmsb
  | false =>
    rw [shift, hlow, if_neg (by simp)] at h
    apply BitVec.eq_of_getLsbD_eq
    intro i hi
    cases i with
    | zero => simp [hlow]
    | succ i =>
      have hbit := congrArg (BitVec.getLsbD · i) h
      simpa [Nat.add_comm] using hbit

theorem shift_injective {P : BitVec w} (hP : P.msb = true) : Function.Injective (shift P) := by
  intro x y h
  apply eq_of_xor_eq_zero
  apply eq_zero_of_shift hP
  rw [shift_xor, h, BitVec.xor_self]
  rfl

theorem shifts_xor (P : BitVec w) (n : Nat) (x y : BitVec w) :
    (shift P)^[n] (x ^^^ y) = (shift P)^[n] x ^^^ (shift P)^[n] y := by
  induction n generalizing x y with
  | zero => rfl
  | succ n ih => rw [Function.iterate_succ_apply, shift_xor, ih]; rfl

/-- Bits that are above the shifts only move down. -/
theorem shifts_high (P y : BitVec w) {n : Nat} (h : ∀ i < n, y.getLsbD i = false) :
    (shift P)^[n] y = y >>> n := by
  induction n with
  | zero => simp
  | succ n ih =>
    have hlow : (y >>> n).getLsbD 0 = false := by simpa using h n (Nat.lt_succ_self n)
    rw [Function.iterate_succ_apply', ih fun i hi => h i (Nat.lt_succ_of_lt hi), shift, hlow,
      if_neg (by simp), BitVec.shiftRight_add]

/-! ## Messages -/

variable {k : Nat}

/-- One digit goes in at the low end. -/
def feed (P c : BitVec w) (d : BitVec k) : BitVec w := (shift P)^[k] (c ^^^ d.setWidth w)

/-- A message as one number, its first digit the lowest. -/
def pack : List (BitVec k) → BitVec w
  | [] => 0
  | d :: ds => d.setWidth w ^^^ pack ds <<< k

theorem pack_high (ds : List (BitVec k)) {i : Nat} (hi : k * ds.length ≤ i) :
    (pack ds : BitVec w).getLsbD i = false := by
  induction ds generalizing i with
  | nil => simp [pack]
  | cons d ds ih =>
    rw [List.length_cons, Nat.mul_succ] at hi
    have hrest := @ih (i - k) (by omega)
    simp [pack, hrest, BitVec.getLsbD_of_ge d i (by omega)]

/-- There is room for the message behind its first digit. -/
theorem pack_shift {d : BitVec k} {ds : List (BitVec k)} (hlen : k * (d :: ds).length ≤ w) :
    ((pack ds : BitVec w) <<< k) >>> k = pack ds := by
  rw [List.length_cons, Nat.mul_succ] at hlen
  apply BitVec.eq_of_getLsbD_eq
  intro i _
  by_cases hi : k * ds.length ≤ i
  · have hz := @pack_high w k ds i hi
    simp [hz]
  · have hroom : k + i < w := by omega
    have hkept : ¬ k + i < k := by omega
    simp only [BitVec.getLsbD_ushiftRight, BitVec.getLsbD_shiftLeft, hroom, hkept, decide_true,
      decide_false, Bool.not_false, Bool.true_and, Nat.add_sub_cancel_left]

theorem feed_inj {P : BitVec w} (hP : P.msb = true) {c c' : BitVec w} (d : BitVec k)
    (h : feed P c d = feed P c' d) : c = c' := by
  have hxor := (shift_injective hP).iterate k h
  calc
    c = c ^^^ d.setWidth w ^^^ d.setWidth w := by
      rw [BitVec.xor_assoc, BitVec.xor_self, BitVec.xor_zero]
    _ = c' := by rw [hxor, BitVec.xor_assoc, BitVec.xor_self, BitVec.xor_zero]

/-- A difference of the registers outlives what is the same in both. -/
theorem foldl_feed_inj {P : BitVec w} (hP : P.msb = true) {c c' : BitVec w} (ds : List (BitVec k))
    (h : ds.foldl (feed P) c = ds.foldl (feed P) c') : c = c' := by
  induction ds generalizing c c' with
  | nil => exact h
  | cons d ds ih => exact feed_inj hP d (ih h)

/-- A message that the register has room for goes in like one number. -/
theorem foldl_feed (P c : BitVec w) {ds : List (BitVec k)} (hlen : k * ds.length ≤ w) :
    ds.foldl (feed P) c = (shift P)^[k * ds.length] (c ^^^ pack ds) := by
  induction ds generalizing c with
  | nil => simp [pack]
  | cons d ds ih =>
    have hlow : (shift P)^[k] ((pack ds : BitVec w) <<< k) = pack ds := by
      rw [shifts_high P _ fun i hi => by simp [hi], pack_shift hlen]
    have hrest : k * ds.length ≤ w := by
      rw [List.length_cons, Nat.mul_succ] at hlen
      omega
    calc
      ds.foldl (feed P) (feed P c d) = (shift P)^[k * ds.length] (feed P c d ^^^ pack ds) :=
        ih _ hrest
      _ = (shift P)^[k * ds.length]
            ((shift P)^[k] (c ^^^ d.setWidth w ^^^ (pack ds : BitVec w) <<< k)) := by
        rw [shifts_xor P k, hlow]
        rfl
      _ = (shift P)^[k * (d :: ds).length] (c ^^^ pack (d :: ds)) := by
        rw [← Function.iterate_add_apply, List.length_cons, Nat.mul_succ, pack, BitVec.xor_assoc]

theorem pack_inj {ds ds' : List (BitVec k)} (heq : ds.length = ds'.length)
    (hlen : k * ds.length ≤ w) (h : (pack ds : BitVec w) = pack ds') : ds = ds' := by
  induction ds generalizing ds' with
  | nil => rw [List.eq_nil_of_length_eq_zero heq.symm]
  | cons d ds ih =>
    obtain ⟨d', ds', rfl⟩ : ∃ d' t, ds' = d' :: t := by
      cases ds' with
      | nil => simp at heq
      | cons d' t => exact ⟨d', t, rfl⟩
    have heq' : ds.length = ds'.length := by simpa using heq
    have hroom : k + k * ds.length ≤ w := by
      rw [List.length_cons, Nat.mul_succ] at hlen
      omega
    have hbit : ∀ i, (pack (d :: ds) : BitVec w).getLsbD i = (pack (d' :: ds') : BitVec w).getLsbD i :=
      fun i => by rw [h]
    have hd : d = d' := by
      apply BitVec.eq_of_getLsbD_eq
      intro i hi
      have hw : i < w := by omega
      simpa [pack, hi, hw] using hbit i
    subst hd
    have hds : (pack ds : BitVec w) = pack ds' := by
      have hshift := congrArg (d.setWidth w ^^^ ·) h
      simp only [pack, ← BitVec.xor_assoc, BitVec.xor_self, BitVec.zero_xor] at hshift
      have hlen' : k * (d :: ds').length ≤ w := by rwa [List.length_cons, ← heq']
      rw [← pack_shift hlen, hshift, pack_shift hlen']
    rw [ih heq' (by omega) hds]

/-- **A burst is seen.** Messages of one length that the register has room for leave it different
if they are. -/
theorem foldl_feed_injective {P : BitVec w} (hP : P.msb = true) (c : BitVec w)
    {ds ds' : List (BitVec k)} (heq : ds.length = ds'.length) (hlen : k * ds.length ≤ w)
    (h : ds.foldl (feed P) c = ds'.foldl (feed P) c) : ds = ds' := by
  rw [foldl_feed P c hlen, foldl_feed P c (heq ▸ hlen), ← heq] at h
  have hxor := (shift_injective hP).iterate _ h
  apply pack_inj heq hlen
  have hshift := congrArg (c ^^^ ·) hxor
  simpa only [← BitVec.xor_assoc, BitVec.xor_self, BitVec.zero_xor] using hshift

end Crc
