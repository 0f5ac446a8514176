import Mvsmf.Lib.Slots

/-!
# The name/value store

The functions of `ntstore.c`, each as what it does under the latch with the clock it sampled in
front of it. A slot is free when its name is all zero. `nt_set` looks for the name first, then for
a free or expired slot, then for the least recently accessed one; `nt_get` passes over what has
expired, and `nt_del` looks at the name only.
-/

namespace Mvsmf

abbrev MVSMF_KVS_SLOTS : Nat := 32
abbrev MVSMF_KVS_NAMELEN : Nat := 16
def MVSMF_KVS_VALMAX : Nat := 192
def KVS_TTL_TICKS : UInt32 := 300

abbrev NtName := Vector UInt8 MVSMF_KVS_NAMELEN

/-- `value` is the `val_len` bytes in use. -/
structure NtSlot where
  name : NtName
  lastAccess : UInt64
  value : List UInt8
  val_fits : value.length ≤ MVSMF_KVS_VALMAX

abbrev NtStore := Fin MVSMF_KVS_SLOTS → NtSlot

def nameFree (n : NtName) : Bool := n.toList.all (· == 0)

/-- The high word of a clock reading, one tick about 1.05 s. -/
def clockHi (t : UInt64) : UInt32 := (t >>> 32).toUInt32

def slotExpired (lastAccess now : UInt64) : Bool :=
  clockHi now - clockHi lastAccess ≥ KVS_TTL_TICKS

def NtSlot.empty : NtSlot := ⟨Vector.replicate _ 0, 0, [], Nat.zero_le _⟩

def ntStoreInit : NtStore := fun _ => NtSlot.empty

/-! ## The operations -/

/-- The slot is in use and has the name. -/
def NtSlot.has (name : NtName) (x : NtSlot) : Bool := !nameFree x.name && x.name == name

def NtSlot.freeOrExpired (now : UInt64) (x : NtSlot) : Bool :=
  nameFree x.name || slotExpired x.lastAccess now

/-- Which of its three searches found `nt_set` its slot. -/
inductive NtTarget where
  | existing (i : Fin MVSMF_KVS_SLOTS)
  | unused (i : Fin MVSMF_KVS_SLOTS)
  | evict (i : Fin MVSMF_KVS_SLOTS)
deriving DecidableEq

def NtTarget.slot : NtTarget → Fin MVSMF_KVS_SLOTS
  | existing i => i
  | unused i => i
  | evict i => i

def ntSetTarget (s : NtStore) (name : NtName) (now : UInt64) : NtTarget :=
  match Slots.first (·.has name) s with
  | some i => .existing i
  | none =>
    match Slots.first (·.freeOrExpired now) s with
    | some i => .unused i
    | none => .evict (Slots.least (·.lastAccess) s)

theorem take_valmax (val : List UInt8) : (val.take MVSMF_KVS_VALMAX).length ≤ MVSMF_KVS_VALMAX :=
  List.length_take_le _ _

def ntSet (s : NtStore) (name : NtName) (val : List UInt8) (now : UInt64) : NtStore :=
  Function.update s (ntSetTarget s name now).slot
    ⟨name, now, val.take MVSMF_KVS_VALMAX, take_valmax val⟩

/-- The entry `nt_get` answers from. -/
def NtSlot.answers (name : NtName) (now : UInt64) (x : NtSlot) : Bool :=
  !nameFree x.name && !slotExpired x.lastAccess now && x.name == name

def ntGet (s : NtStore) (name : NtName) (max : Nat) (now : UInt64) :
    NtStore × Option (List UInt8) :=
  match Slots.first (·.answers name now) s with
  | some i => (Function.update s i { s i with lastAccess := now }, some ((s i).value.take max))
  | none => (s, none)

def ntDel (s : NtStore) (name : NtName) : NtStore × Bool :=
  match Slots.first (·.has name) s with
  | some i => (Function.update s i NtSlot.empty, true)
  | none => (s, false)

/-! ## One call -/

inductive NtOp where
  | set (name : NtName) (val : List UInt8)
  | get (name : NtName) (max : Nat)
  | del (name : NtName)
deriving DecidableEq

def NtOp.name : NtOp → NtName
  | set n _ => n
  | get n _ => n
  | del n => n

/-- A call with the clock it sampled. -/
structure NtCall where
  op : NtOp
  now : UInt64
deriving DecidableEq

/-- The return code, and the bytes copied out. -/
structure NtReply where
  rc : Nat
  out : List UInt8
deriving DecidableEq, Repr

def ntStep (s : NtStore) (c : NtCall) : NtStore × NtReply :=
  match c.op with
  | .set n v => (ntSet s n v c.now, ⟨0, []⟩)
  | .get n max =>
    match ntGet s n max c.now with
    | (s', some v) => (s', ⟨0, v⟩)
    | (s', none) => (s', ⟨4, []⟩)
  | .del n =>
    match ntDel s n with
    | (s', true) => (s', ⟨0, []⟩)
    | (s', false) => (s', ⟨4, []⟩)

/-! ## What a call can do -/

theorem nameFree_empty : nameFree NtSlot.empty.name = true := by
  simp [nameFree, NtSlot.empty]

theorem NtSlot.has_iff {name : NtName} {x : NtSlot} :
    x.has name = true ↔ nameFree x.name = false ∧ x.name = name := by
  simp [NtSlot.has]

theorem NtSlot.answers_iff {name : NtName} {now : UInt64} {x : NtSlot} :
    x.answers name now = true ↔
      nameFree x.name = false ∧ x.name = name ∧ slotExpired x.lastAccess now = false := by
  simp only [NtSlot.answers, Bool.and_eq_true, Bool.not_eq_true', beq_iff_eq]
  constructor
  · rintro ⟨⟨hfree, hexp⟩, hname⟩
    exact ⟨hfree, hname, hexp⟩
  · rintro ⟨hfree, hname, hexp⟩
    exact ⟨⟨hfree, hexp⟩, hname⟩

/-- **The slot of a set.** Its own if it has one; else a free or expired one, all slots in front of
it neither; else the least recently accessed, all of them neither free nor expired. -/
theorem ntSetTarget_cases (s : NtStore) (name : NtName) (now : UInt64) :
    (∃ i, ntSetTarget s name now = .existing i ∧ nameFree (s i).name = false ∧
      (s i).name = name) ∨
    (∃ i, ntSetTarget s name now = .unused i ∧
      (∀ j, nameFree (s j).name = false → (s j).name ≠ name) ∧
      (s i).freeOrExpired now = true ∧ ∀ j < i, (s j).freeOrExpired now = false) ∨
    (∃ i, ntSetTarget s name now = .evict i ∧
      (∀ j, nameFree (s j).name = false → (s j).name ≠ name) ∧
      (∀ j, (s j).freeOrExpired now = false) ∧ ∀ j, (s i).lastAccess ≤ (s j).lastAccess) := by
  unfold ntSetTarget
  cases hf : Slots.first (·.has name) s with
  | some i => exact Or.inl ⟨i, rfl, NtSlot.has_iff.mp (Slots.first_some hf)⟩
  | none =>
    have hno : ∀ j, nameFree (s j).name = false → (s j).name ≠ name := by
      intro j hfree hj
      have := Slots.first_none.mp hf j
      rw [NtSlot.has_iff.mpr ⟨hfree, hj⟩] at this
      contradiction
    cases hu : Slots.first (·.freeOrExpired now) s with
    | some i =>
      exact Or.inr (Or.inl ⟨i, rfl, hno, Slots.first_some hu, fun j hj => Slots.first_before hu hj⟩)
    | none =>
      exact Or.inr (Or.inr ⟨_, rfl, hno, Slots.first_none.mp hu, Slots.least_le _ s⟩)

/-- What a call can do: a set writes its slot; a get touches an entry of the name that has not
expired and answers its value, or misses; a delete clears a slot of the name, or misses. -/
inductive NtEffect (s : NtStore) (now : UInt64) : NtOp → NtStore × NtReply → Prop
  | set (n : NtName) (v : List UInt8) : NtEffect s now (.set n v) (ntSet s n v now, ⟨0, []⟩)
  | touch (i : Fin MVSMF_KVS_SLOTS) (max : Nat) :
      nameFree (s i).name = false → slotExpired (s i).lastAccess now = false →
      NtEffect s now (.get (s i).name max)
        (Function.update s i { s i with lastAccess := now }, ⟨0, (s i).value.take max⟩)
  | miss (n : NtName) (max : Nat) :
      (∀ i, nameFree (s i).name = false → (s i).name = n →
        slotExpired (s i).lastAccess now = true) →
      NtEffect s now (.get n max) (s, ⟨4, []⟩)
  | clear (i : Fin MVSMF_KVS_SLOTS) :
      nameFree (s i).name = false →
      NtEffect s now (.del (s i).name) (Function.update s i NtSlot.empty, ⟨0, []⟩)
  | absent (n : NtName) :
      (∀ i, nameFree (s i).name = false → (s i).name ≠ n) →
      NtEffect s now (.del n) (s, ⟨4, []⟩)

theorem ntStep_effect (s : NtStore) (c : NtCall) : NtEffect s c.now c.op (ntStep s c) := by
  obtain ⟨op, now⟩ := c
  cases op with
  | set n v => exact .set n v
  | get n max =>
    simp only [ntStep, ntGet]
    cases hf : Slots.first (·.answers n now) s with
    | some i =>
      obtain ⟨hfree, rfl, hexp⟩ := NtSlot.answers_iff.mp (Slots.first_some hf)
      exact .touch i max hfree hexp
    | none =>
      refine .miss n max fun i hfree hi => ?_
      by_contra hexp
      have := Slots.first_none.mp hf i
      rw [NtSlot.answers_iff.mpr ⟨hfree, hi, by simpa using hexp⟩] at this
      contradiction
  | del n =>
    simp only [ntStep, ntDel]
    cases hf : Slots.first (·.has n) s with
    | some i =>
      obtain ⟨hfree, rfl⟩ := NtSlot.has_iff.mp (Slots.first_some hf)
      exact .clear i hfree
    | none =>
      refine .absent n fun i hfree hi => ?_
      have := Slots.first_none.mp hf i
      rw [NtSlot.has_iff.mpr ⟨hfree, hi⟩] at this
      contradiction

end Mvsmf
