import Mvsmf.Console.NtStore
import Mathlib

/-!
# Runs of the name/value store

One call after the other, on a clock that does not go back. What a name stands for is read off the
calls alone: the value of its last set, unless it was deleted since or a set of another name took
its slot. The slots agree with that after every call, and from the slots follows what a get answers
and which entry a set may drop.
-/

namespace Mvsmf

/-! ## Ages -/

/-- The tick of a clock reading. -/
def tick (t : UInt64) : Nat := (clockHi t).toNat

/-- Less than `KVS_TTL_TICKS` ticks old. -/
def Recent (access now : UInt64) : Prop := tick now < tick access + 300

instance (access now : UInt64) : Decidable (Recent access now) :=
  inferInstanceAs (Decidable (_ < _))

theorem tick_eq (t : UInt64) : tick t = t.toNat / 2 ^ 32 := by
  have := t.toNat_lt
  simp only [tick, clockHi, UInt64.toNat_toUInt32, UInt64.toNat_shiftRight]
  rw [Nat.shiftRight_eq_div_pow]
  have : t.toNat / 2 ^ 32 < 2 ^ 32 := by omega
  exact Nat.mod_eq_of_lt this

theorem tick_mono {a b : UInt64} (h : a ≤ b) : tick a ≤ tick b := by
  rw [tick_eq, tick_eq]
  exact Nat.div_le_div_right (UInt64.le_iff_toNat_le.mp h)

/-- On a clock that has not gone back behind the access, the code's age is the age. -/
theorem slotExpired_iff {access now : UInt64} (h : tick access ≤ tick now) :
    slotExpired access now = false ↔ Recent access now := by
  have hsub : (clockHi now - clockHi access).toNat = tick now - tick access :=
    UInt32.toNat_sub_of_le _ _ (UInt32.le_iff_toNat_le.mpr h)
  have httl : KVS_TTL_TICKS.toNat = 300 := rfl
  simp only [slotExpired, Recent, ge_iff_le, decide_eq_false_iff_not, UInt32.le_iff_toNat_le, hsub,
    httl]
  omega

/-! ## Histories -/

def ntAfter (s : NtStore) (calls : List NtCall) : NtStore :=
  calls.foldl (fun s c => (ntStep s c).1) s

@[simp] theorem ntAfter_nil (s : NtStore) : ntAfter s [] = s := rfl

@[simp] theorem ntAfter_concat (s : NtStore) (calls : List NtCall) (c : NtCall) :
    ntAfter s (calls ++ [c]) = (ntStep (ntAfter s calls) c).1 := by
  simp [ntAfter]

/-- The value of the last set of a name and the clock of its last access. -/
structure NtRecord where
  value : List UInt8
  access : UInt64
deriving DecidableEq, Repr

/-- What a call makes of the record of `k`: its own set makes a new one, its delete and a set of
another name in its slot end it, and its get touches it while it is recent. -/
def recordStep (k : NtName) (s : NtStore) (r : Option NtRecord) (c : NtCall) : Option NtRecord :=
  match c.op with
  | .set n v =>
    if n = k then some ⟨v.take MVSMF_KVS_VALMAX, c.now⟩
    else if (s (ntSetTarget s n c.now).slot).name = k then none
    else r
  | .get n _ =>
    if n = k then r.map fun e => if Recent e.access c.now then ⟨e.value, c.now⟩ else e else r
  | .del n => if n = k then none else r

/-- The record of `k` behind a history that starts with an empty store. -/
def recordOf (k : NtName) (calls : List NtCall) : Option NtRecord :=
  (calls.foldl (fun (x : NtStore × Option NtRecord) c =>
    ((ntStep x.1 c).1, recordStep k x.1 x.2 c)) (ntStoreInit, none)).2

theorem recordOf_concat (k : NtName) (calls : List NtCall) (c : NtCall) :
    recordOf k (calls ++ [c]) = recordStep k (ntAfter ntStoreInit calls) (recordOf k calls) c := by
  have hfst : ∀ (calls : List NtCall) (x : NtStore × Option NtRecord),
      (calls.foldl (fun (x : NtStore × Option NtRecord) c =>
        ((ntStep x.1 c).1, recordStep k x.1 x.2 c)) x).1 = ntAfter x.1 calls := by
    intro calls
    induction calls with
    | nil => intro x; rfl
    | cons c calls ih => intro x; exact ih _
  simp only [recordOf, List.foldl_append, List.foldl_cons, List.foldl_nil, hfst]

/-! ## Invariants -/

def NtUnique (s : NtStore) : Prop :=
  ∀ i j, nameFree (s i).name = false → (s i).name = (s j).name → i = j

/-- The store holds the record of `k`, or no slot has the name. -/
def Describes (s : NtStore) (k : NtName) : Option NtRecord → Prop
  | some e => ∃ i, (s i).name = k ∧ (s i).value = e.value ∧ (s i).lastAccess = e.access
  | none => ∀ i, (s i).name ≠ k

theorem ntUnique_init : NtUnique ntStoreInit := by
  intro i j h
  rw [show (ntStoreInit i).name = NtSlot.empty.name from rfl, nameFree_empty] at h
  contradiction

theorem ntUnique_update {s : NtStore} (hu : NtUnique s) (i : Fin MVSMF_KVS_SLOTS) (x : NtSlot)
    (hx : nameFree x.name = true ∨ ∀ j, j ≠ i → (s j).name ≠ x.name) :
    NtUnique (Function.update s i x) := by
  intro a b ha hab
  by_cases hai : a = i
  · by_cases hbi : b = i
    · rw [hai, hbi]
    · rw [hai, Function.update_self] at ha hab
      rw [Function.update_of_ne hbi] at hab
      rcases hx with hx | hx
      · rw [hx] at ha
        contradiction
      · exact absurd hab.symm (hx b hbi)
  · rw [Function.update_of_ne hai] at ha hab
    by_cases hbi : b = i
    · rw [hbi, Function.update_self] at hab
      rcases hx with hx | hx
      · rw [hab, hx] at ha
        contradiction
      · exact absurd hab (hx a hai)
    · rw [Function.update_of_ne hbi] at hab
      exact hu a b ha hab

/-- The slot of a set is the only one with its name. -/
theorem ntSetTarget_alone {s : NtStore} (hu : NtUnique s) {n : NtName} (hn : nameFree n = false)
    (now : UInt64) : ∀ j, j ≠ (ntSetTarget s n now).slot → (s j).name ≠ n := by
  intro j hj hjn
  have hjf : nameFree (s j).name = false := by rw [hjn]; exact hn
  rcases ntSetTarget_cases s n now with ⟨i, ht, -, hi⟩ | ⟨i, -, hno, -⟩ | ⟨i, -, hno, -⟩
  · rw [ht] at hj
    exact hj (hu j i hjf (hjn.trans hi.symm))
  · exact hno j hjf hjn
  · exact hno j hjf hjn

theorem ntUnique_step {s : NtStore} (hu : NtUnique s) {c : NtCall}
    (hc : nameFree c.op.name = false) : NtUnique (ntStep s c).1 := by
  have heff := ntStep_effect s c
  obtain ⟨op, now⟩ := c
  generalize ntStep s ⟨op, now⟩ = r at heff
  cases heff with
  | set n v => exact ntUnique_update hu _ _ (Or.inr (ntSetTarget_alone hu hc now))
  | touch i max hfree hexp =>
    apply ntUnique_update hu
    right
    intro j hj hjn
    exact hj (hu j i (by rw [hjn]; exact hfree) hjn)
  | miss n max hall => exact hu
  | clear i hfree => exact ntUnique_update hu _ _ (Or.inl nameFree_empty)
  | absent n hno => exact hu

/-- No slot was accessed behind `now`. -/
def NtBy (s : NtStore) (now : UInt64) : Prop := ∀ i, (s i).lastAccess ≤ now

theorem NtBy.mono {s : NtStore} {a b : UInt64} (h : NtBy s a) (hab : a ≤ b) : NtBy s b :=
  fun i => UInt64.le_trans (h i) hab

theorem NtBy.update {s : NtStore} {now : UInt64} (h : NtBy s now) (i : Fin MVSMF_KVS_SLOTS)
    {x : NtSlot} (hx : x.lastAccess ≤ now) : NtBy (Function.update s i x) now := by
  intro j
  by_cases hj : j = i
  · rw [hj, Function.update_self]
    exact hx
  · rw [Function.update_of_ne hj]
    exact h j

theorem NtBy.step {s : NtStore} {c : NtCall} {t : UInt64} (h : NtBy s t) (hc : c.now ≤ t) :
    NtBy (ntStep s c).1 t := by
  have heff := ntStep_effect s c
  obtain ⟨op, now⟩ := c
  generalize ntStep s ⟨op, now⟩ = r at heff
  cases heff with
  | set n v => exact h.update _ hc
  | touch i max hfree hexp => exact h.update _ hc
  | miss n max hall => exact h
  | clear i hfree => exact h.update _ UInt64.zero_le
  | absent n hno => exact h

/-! ## Slots and records -/

theorem Describes.update {s : NtStore} {k : NtName} {r : Option NtRecord} (h : Describes s k r)
    (i : Fin MVSMF_KVS_SLOTS) {x : NtSlot} (hi : (s i).name ≠ k) (hx : x.name ≠ k) :
    Describes (Function.update s i x) k r := by
  cases r with
  | none =>
    intro j
    by_cases hj : j = i
    · rw [hj, Function.update_self]
      exact hx
    · rw [Function.update_of_ne hj]
      exact h j
  | some e =>
    obtain ⟨j, hj, hv, ha⟩ := h
    have hne : j ≠ i := by
      rintro rfl
      exact hi hj
    exact ⟨j, by rw [Function.update_of_ne hne]; exact ⟨hj, hv, ha⟩⟩

/-- A write to the slot of `k` decides its record. -/
theorem Describes.gone {s : NtStore} (hu : NtUnique s) {k : NtName} (hk : nameFree k = false)
    {i : Fin MVSMF_KVS_SLOTS} (hi : (s i).name = k) {x : NtSlot} (hx : x.name ≠ k) :
    Describes (Function.update s i x) k none := by
  intro j
  by_cases hj : j = i
  · rw [hj, Function.update_self]
    exact hx
  · rw [Function.update_of_ne hj]
    exact fun hjk => hj (hu j i (by rw [hjk]; exact hk) (hjk.trans hi.symm))

theorem Describes.at {s : NtStore} (hu : NtUnique s) {r : Option NtRecord}
    {i : Fin MVSMF_KVS_SLOTS} (hi : nameFree (s i).name = false)
    (h : Describes s (s i).name r) : r = some ⟨(s i).value, (s i).lastAccess⟩ := by
  cases r with
  | none => exact absurd rfl (h i)
  | some e =>
    obtain ⟨j, hj, hv, ha⟩ := h
    obtain rfl := hu i j hi hj.symm
    rw [hv, ha]

theorem empty_ne {k : NtName} (hk : nameFree k = false) : NtSlot.empty.name ≠ k := by
  rintro rfl
  rw [nameFree_empty] at hk
  contradiction

/-- **A call keeps the slots and the records in step.** -/
theorem Describes.step {s : NtStore} {k : NtName} {r : Option NtRecord} {c : NtCall}
    (hu : NtUnique s) (hby : NtBy s c.now) (hk : nameFree k = false)
    (hc : nameFree c.op.name = false) (h : Describes s k r) :
    Describes (ntStep s c).1 k (recordStep k s r c) := by
  have heff := ntStep_effect s c
  obtain ⟨op, now⟩ := c
  generalize ntStep s ⟨op, now⟩ = out at heff
  cases heff with
  | set n v =>
    simp only [recordStep]
    split
    next hnk => exact ⟨(ntSetTarget s n now).slot, by simp [ntSet, hnk]⟩
    next hnk =>
      split
      next htaken => exact Describes.gone hu hk htaken hnk
      next hother => exact h.update _ hother hnk
  | touch i max hfree hexp =>
    have hrec : Recent (s i).lastAccess now := (slotExpired_iff (tick_mono (hby i))).mp hexp
    simp only [recordStep]
    split
    next hik =>
      subst hik
      rw [h.at hu hk, Option.map_some, if_pos hrec]
      exact ⟨i, by simp⟩
    next hik => exact h.update _ hik hik
  | miss n max hall =>
    simp only [recordStep]
    split
    next hnk =>
      subst hnk
      cases r with
      | none => exact h
      | some e =>
        obtain ⟨j, hj, hv, ha⟩ := h
        have hold : ¬ Recent e.access now := by
          rw [← ha, ← slotExpired_iff (tick_mono (hby j)), hall j (by rw [hj]; exact hc) hj]
          simp
        rw [Option.map_some, if_neg hold]
        exact ⟨j, hj, hv, ha⟩
    next => exact h
  | clear i hfree =>
    simp only [recordStep]
    split
    next hik => exact Describes.gone hu hk hik (empty_ne hk)
    next hik => exact h.update _ hik (empty_ne hk)
  | absent n hno =>
    simp only [recordStep]
    split
    next hnk =>
      subst hnk
      intro j hj
      exact hno j (by rw [hj]; exact hk) hj
    next => exact h

/-! ## One call of a run -/

/-- What one more call does behind a history that left the store `s` and the records `r`: no name is
in two slots; a get answers the record while it is recent; a recent entry makes room for another
name only when every slot is recent and it is the least recently accessed; and no other name's slot
is touched but the one a set takes. -/
structure NtCallOk (s : NtStore) (r : NtName → Option NtRecord) (c : NtCall) : Prop where
  unique : NtUnique s
  get : ∀ n max, c.op = .get n max →
    (ntStep s c).2 = match r n with
      | some e => if Recent e.access c.now then ⟨0, e.value.take max⟩ else ⟨4, []⟩
      | none => ⟨4, []⟩
  reuse : ∀ i, nameFree (s i).name = false → Recent (s i).lastAccess c.now →
    ((ntStep s c).1 i).name ≠ (s i).name → c.op ≠ .del (s i).name →
    (∀ j, nameFree (s j).name = false ∧ Recent (s j).lastAccess c.now) ∧
      ∀ j, (s i).lastAccess ≤ (s j).lastAccess
  frame : ∀ i, nameFree (s i).name = false → (s i).name ≠ c.op.name →
    (ntStep s c).1 i = s i ∨
      ∃ v, c.op = .set c.op.name v ∧ i = (ntSetTarget s c.op.name c.now).slot

/-- A slot that is neither free nor expired. -/
theorem freeOrExpired_iff {x : NtSlot} {now : UInt64} (h : x.lastAccess ≤ now) :
    x.freeOrExpired now = false ↔ nameFree x.name = false ∧ Recent x.lastAccess now := by
  rw [NtSlot.freeOrExpired, Bool.or_eq_false_iff, slotExpired_iff (tick_mono h)]

theorem ntCall_get {s : NtStore} {r : NtName → Option NtRecord} {c : NtCall} (hu : NtUnique s)
    (hby : NtBy s c.now) (hc : nameFree c.op.name = false) (h : Describes s c.op.name (r c.op.name))
    (n : NtName) (max : Nat) (hop : c.op = .get n max) :
    (ntStep s c).2 = match r n with
      | some e => if Recent e.access c.now then ⟨0, e.value.take max⟩ else ⟨4, []⟩
      | none => ⟨4, []⟩ := by
  have heff := ntStep_effect s c
  obtain ⟨op, now⟩ := c
  obtain rfl : op = .get n max := hop
  generalize ntStep s ⟨.get n max, now⟩ = out at heff
  cases heff with
  | touch i max hfree hexp =>
    have hrec : Recent (s i).lastAccess now := (slotExpired_iff (tick_mono (hby i))).mp hexp
    have hr : r (s i).name = _ := h.at hu hc
    rw [hr]
    exact (if_pos hrec).symm
  | miss n max hall =>
    have hn : Describes s n (r n) := h
    cases hr : r n with
    | none => rfl
    | some e =>
      rw [hr] at hn
      obtain ⟨j, hj, -, ha⟩ := hn
      have hold : ¬ Recent e.access now := by
        rw [← ha, ← slotExpired_iff (tick_mono (hby j)), hall j (by rw [hj]; exact hc) hj]
        simp
      exact (if_neg hold).symm

theorem ntSet_reuse {s : NtStore} {n : NtName} {now : UInt64} (hby : NtBy s now)
    (v : List UInt8) (i : Fin MVSMF_KVS_SLOTS)
    (hi : nameFree (s i).name = false) (hrec : Recent (s i).lastAccess now)
    (hname : (ntSet s n v now i).name ≠ (s i).name) :
    (∀ j, nameFree (s j).name = false ∧ Recent (s j).lastAccess now) ∧
      ∀ j, (s i).lastAccess ≤ (s j).lastAccess := by
  have hslot : i = (ntSetTarget s n now).slot := by
    by_contra hne
    rw [ntSet, Function.update_of_ne hne] at hname
    exact hname rfl
  rcases ntSetTarget_cases s n now with ⟨j, ht, -, hj⟩ | ⟨j, ht, -, hfree, -⟩ | ⟨j, ht, -, hall, hlru⟩
  · rw [ht] at hslot
    subst hslot
    refine absurd ?_ hname
    rw [ntSet, ht]
    simpa [NtTarget.slot] using hj.symm
  · rw [ht] at hslot
    subst hslot
    have hkept := (freeOrExpired_iff (hby _)).mpr ⟨hi, hrec⟩
    exact absurd (hkept.symm.trans hfree) (by simp)
  · rw [ht] at hslot
    subst hslot
    exact ⟨fun k => (freeOrExpired_iff (hby k)).mp (hall k), hlru⟩

theorem touch_name (s : NtStore) (i j : Fin MVSMF_KVS_SLOTS) (now : UInt64) :
    (Function.update s j { s j with lastAccess := now } i).name = (s i).name := by
  by_cases hij : i = j
  · rw [hij, Function.update_self]
  · rw [Function.update_of_ne hij]

theorem ntCall_reuse {s : NtStore} {c : NtCall} (hby : NtBy s c.now) (i : Fin MVSMF_KVS_SLOTS)
    (hi : nameFree (s i).name = false) (hrec : Recent (s i).lastAccess c.now)
    (hname : ((ntStep s c).1 i).name ≠ (s i).name) (hdel : c.op ≠ .del (s i).name) :
    (∀ j, nameFree (s j).name = false ∧ Recent (s j).lastAccess c.now) ∧
      ∀ j, (s i).lastAccess ≤ (s j).lastAccess := by
  have heff := ntStep_effect s c
  obtain ⟨op, now⟩ := c
  generalize ntStep s ⟨op, now⟩ = out at heff hname
  cases heff with
  | set n v => exact ntSet_reuse hby v i hi hrec hname
  | touch j max hfree hexp => exact absurd (touch_name s i j now) hname
  | miss n max hall => exact absurd rfl hname
  | clear j hfree =>
    by_cases hij : i = j
    · subst hij
      exact absurd rfl hdel
    · exact absurd (congrArg NtSlot.name (Function.update_of_ne hij _ _)) hname
  | absent n hno => exact absurd rfl hname

theorem ntCall_frame {s : NtStore} {c : NtCall} (i : Fin MVSMF_KVS_SLOTS)
    (hne : (s i).name ≠ c.op.name) :
    (ntStep s c).1 i = s i ∨
      ∃ v, c.op = .set c.op.name v ∧ i = (ntSetTarget s c.op.name c.now).slot := by
  have heff := ntStep_effect s c
  obtain ⟨op, now⟩ := c
  generalize ntStep s ⟨op, now⟩ = out at heff
  cases heff with
  | set n v =>
    by_cases hslot : i = (ntSetTarget s n now).slot
    · exact Or.inr ⟨v, rfl, hslot⟩
    · exact Or.inl (Function.update_of_ne hslot _ _)
  | touch j max hfree hexp =>
    left
    apply Function.update_of_ne
    rintro rfl
    exact hne rfl
  | miss n max hall => exact Or.inl rfl
  | clear j hfree =>
    left
    apply Function.update_of_ne
    rintro rfl
    exact hne rfl
  | absent n hno => exact Or.inl rfl

/-! ## Runs -/

/-- The invariant of a run: names in one slot each, no access behind the clock, and the slots as the
history has them. -/
structure NtInv (calls : List NtCall) : Prop where
  unique : NtUnique (ntAfter ntStoreInit calls)
  by_clock : ∀ now, (∀ c ∈ calls, c.now ≤ now) → NtBy (ntAfter ntStoreInit calls) now
  records : ∀ k, nameFree k = false → Describes (ntAfter ntStoreInit calls) k (recordOf k calls)

theorem ntInv_nil : NtInv [] := by
  refine ⟨ntUnique_init, fun now _ i => UInt64.zero_le, fun k hk i => ?_⟩
  exact empty_ne hk

theorem NtInv.concat {calls : List NtCall} {c : NtCall} (h : NtInv calls)
    (hclock : ∀ c' ∈ calls, c'.now ≤ c.now) (hc : nameFree c.op.name = false) :
    NtInv (calls ++ [c]) := by
  have hby := h.by_clock c.now hclock
  refine ⟨?_, fun now hnow => ?_, fun k hk => ?_⟩
  · rw [ntAfter_concat]
    exact ntUnique_step h.unique hc
  · rw [ntAfter_concat]
    exact (hby.step (UInt64.le_refl c.now)).mono (hnow c (by simp))
  · rw [ntAfter_concat, recordOf_concat]
    exact (h.records k hk).step h.unique hby hk hc

theorem ntInv {calls : List NtCall} (hclock : calls.Pairwise (·.now ≤ ·.now))
    (hnames : ∀ c ∈ calls, nameFree c.op.name = false) : NtInv calls := by
  induction calls using List.reverseRecOn with
  | nil => exact ntInv_nil
  | append_singleton calls c ih =>
    obtain ⟨hpre, -, hlast⟩ := List.pairwise_append.mp hclock
    apply (ih hpre fun c' hc' => hnames c' (by simp [hc'])).concat
    · exact fun c' hc' => hlast c' hc' c (by simp)
    · exact hnames c (by simp)

/-- **The store as a map with ages.** In every run of calls one after the other, on readings of the
64-bit clock that do not go back, every call does what `NtCallOk` says of the history in front of
it, and the names stay unique to the end. -/
theorem ntStore_run (calls : List NtCall) (hclock : calls.Pairwise (·.now ≤ ·.now))
    (hnames : ∀ c ∈ calls, nameFree c.op.name = false) :
    NtUnique (ntAfter ntStoreInit calls) ∧
    ∀ before c after, calls = before ++ c :: after →
      NtCallOk (ntAfter ntStoreInit before) (recordOf · before) c := by
  refine ⟨(ntInv hclock hnames).unique, ?_⟩
  rintro before c after rfl
  obtain ⟨hpre, -, hlast⟩ := List.pairwise_append.mp hclock
  have hinv := ntInv hpre fun c' hc' => hnames c' (by simp [hc'])
  have hc := hnames c (by simp)
  have hby := hinv.by_clock c.now fun c' hc' => hlast c' hc' c (by simp)
  exact ⟨hinv.unique, ntCall_get hinv.unique hby hc (hinv.records _ hc),
    ntCall_reuse hby, fun i _ => ntCall_frame i⟩

theorem ntStore_run_setGet :
    let k : NtName := Vector.replicate _ 0xD2
    let calls : List NtCall := [⟨.set k [1, 2], 0⟩, ⟨.get k 1, 0x100000000⟩]
    NtUnique (ntAfter ntStoreInit calls) ∧
    ∀ before c after, calls = before ++ c :: after →
      NtCallOk (ntAfter ntStoreInit before) (recordOf · before) c := by
  apply ntStore_run
  · simp
  · simp only [List.mem_cons, List.not_mem_nil, or_false, forall_eq_or_imp, forall_eq]
    exact ⟨rfl, rfl⟩

end Mvsmf
