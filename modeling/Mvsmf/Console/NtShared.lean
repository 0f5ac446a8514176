import Mvsmf.Console.NtRun

/-!
# The name/value store between workers

A worker samples the clock, then waits for the latch, and the clock runs on meanwhile. So a call can
come to an entry that was set or read in a later tick than the one the call knows. The age it then
computes is a difference below zero, which is a very large unsigned one.
-/

namespace Mvsmf

/-! ## Workers, clock and latch -/

/-- A set or a read of an entry: the clock it wrote, and the clock when it held the latch. -/
structure NtAccess where
  sampled : UInt64
  latched : UInt64

/-- The store, the clock, what each worker waits with in front of the latch, and for each slot the
accesses to the entry it has. -/
structure NtShared where
  store : NtStore
  clock : UInt64
  pending : Nat → Option NtCall
  accesses : Fin MVSMF_KVS_SLOTS → List NtAccess

def NtShared.init (t : UInt64) : NtShared := ⟨ntStoreInit, t, fun _ => none, fun _ => []⟩

/-- A worker calls: it samples the clock and waits. -/
def NtShared.call (x : NtShared) (w : Nat) (op : NtOp) : NtShared :=
  { x with pending := Function.update x.pending w (some ⟨op, x.clock⟩) }

/-- The slot a call sets or reads. -/
def ntAccessed (s : NtStore) (c : NtCall) : Option (Fin MVSMF_KVS_SLOTS) :=
  match c.op with
  | .set n _ => some (ntSetTarget s n c.now).slot
  | .get n _ => Slots.first (·.answers n c.now) s
  | .del _ => none

/-- A call that holds the latch. An entry of its name goes on, in any other slot a new one begins. -/
def NtShared.latch (x : NtShared) (w : Nat) (c : NtCall) : NtShared where
  store := (ntStep x.store c).1
  clock := x.clock
  pending := Function.update x.pending w none
  accesses i :=
    if ntAccessed x.store c = some i then
      ⟨c.now, x.clock⟩ :: if (x.store i).has c.op.name then x.accesses i else []
    else x.accesses i

/-- One step of the workers or of the clock, every call that gets the latch meeting `ok`. -/
inductive NtStep (ok : NtShared → NtCall → Prop) : NtShared → NtShared → Prop
  | tick (x : NtShared) (t : UInt64) : x.clock ≤ t → NtStep ok x { x with clock := t }
  | call (x : NtShared) (w : Nat) (op : NtOp) : x.pending w = none → NtStep ok x (x.call w op)
  | latch (x : NtShared) (w : Nat) (c : NtCall) : x.pending w = some c → ok x c →
      NtStep ok x (x.latch w c)

inductive NtReach (ok : NtShared → NtCall → Prop) : NtShared → Prop
  | init (t : UInt64) : NtReach ok (NtShared.init t)
  | step {x y : NtShared} : NtReach ok x → NtStep ok x y → NtReach ok y

/-- A call does not take a recent entry for an expired one, the `time` of an access being what its
age counts from: a get of its name answers, and a set of another name does not take its slot for an
unused one. -/
def NtKept (time : NtAccess → UInt64) (x : NtShared) (c : NtCall) : Prop :=
  ∀ i, nameFree (x.store i).name = false → ∀ a ∈ x.accesses i, Recent (time a) c.now →
    (∀ max, c.op = .get (x.store i).name max → (ntStep x.store c).2.rc = 0) ∧
    ∀ n v, c.op = .set n v → n ≠ (x.store i).name → ntSetTarget x.store n c.now ≠ .unused i

/-- The entry of the call's name was not accessed in a later tick than the call's; for a set that
has to find a slot, nor was any entry it can come to before a free or expired slot. -/
def NtInOrder (s : NtStore) (c : NtCall) : Prop :=
  match c.op with
  | .get n _ => ∀ i, nameFree (s i).name = false → (s i).name = n →
      tick (s i).lastAccess ≤ tick c.now
  | .set n _ =>
      (∀ i, nameFree (s i).name = false → (s i).name = n → tick (s i).lastAccess ≤ tick c.now) ∧
      ((∀ i, nameFree (s i).name = false → (s i).name ≠ n) →
        ∀ i, (∀ j ≤ i, nameFree (s j).name = false ∧ Recent (s j).lastAccess c.now) →
          tick (s i).lastAccess ≤ tick c.now)
  | .del _ => True

/-! ## One call -/

/-- A call puts its own clock on the slot it accesses, and leaves the others or frees them. -/
theorem ntStep_accessed (s : NtStore) (c : NtCall) (i : Fin MVSMF_KVS_SLOTS)
    (h : ntAccessed s c = some i) : ((ntStep s c).1 i).lastAccess = c.now := by
  obtain ⟨op, now⟩ := c
  cases op with
  | set n v =>
    obtain rfl : (ntSetTarget s n now).slot = i := Option.some.inj h
    simp [ntStep, ntSet]
  | get n max =>
    have hf : Slots.first (·.answers n now) s = some i := h
    simp [ntStep, ntGet, hf]
  | del n => exact absurd h (by simp [ntAccessed])

theorem ntStep_not_accessed (s : NtStore) (c : NtCall) (i : Fin MVSMF_KVS_SLOTS)
    (h : ntAccessed s c ≠ some i) :
    (ntStep s c).1 i = s i ∨ nameFree ((ntStep s c).1 i).name = true := by
  obtain ⟨op, now⟩ := c
  cases op with
  | set n v =>
    left
    apply Function.update_of_ne
    rintro rfl
    exact h rfl
  | get n max =>
    left
    simp only [ntStep, ntGet]
    cases hf : Slots.first (·.answers n now) s with
    | none => rfl
    | some j =>
      apply Function.update_of_ne
      rintro rfl
      exact h hf
  | del n =>
    simp only [ntStep, ntDel]
    cases hf : Slots.first (·.has n) s with
    | none => exact Or.inl rfl
    | some j =>
      by_cases hij : i = j
      · right
        subst hij
        simp [nameFree_empty]
      · exact Or.inl (Function.update_of_ne hij _ _)

theorem NtInOrder.own {s : NtStore} {c : NtCall} (h : NtInOrder s c) {i : Fin MVSMF_KVS_SLOTS}
    (hacc : ntAccessed s c = some i) (hhas : (s i).has c.op.name = true) :
    tick (s i).lastAccess ≤ tick c.now := by
  obtain ⟨hfree, hname⟩ := NtSlot.has_iff.mp hhas
  obtain ⟨op, now⟩ := c
  cases op with
  | set n v => exact h.1 i hfree hname
  | get n max => exact h i hfree hname
  | del n => exact absurd hacc (by simp [ntAccessed])

theorem ntSetTarget_unused {s : NtStore} {n : NtName} {now : UInt64} {i : Fin MVSMF_KVS_SLOTS}
    (h : ntSetTarget s n now = .unused i) :
    (∀ j, nameFree (s j).name = false → (s j).name ≠ n) ∧ (s i).freeOrExpired now = true ∧
      ∀ j < i, (s j).freeOrExpired now = false := by
  rcases ntSetTarget_cases s n now with ⟨j, ht, -⟩ | ⟨j, ht, hno, hj, hbefore⟩ | ⟨j, ht, -⟩
  · rw [h] at ht
    contradiction
  · rw [h] at ht
    obtain rfl : i = j := NtTarget.unused.inj ht
    exact ⟨hno, hj, hbefore⟩
  · rw [h] at ht
    contradiction

/-- What a set passes over is recent, whether or not it was accessed in a later tick. -/
theorem recent_of_passed {x : NtSlot} {now : UInt64} (h : x.freeOrExpired now = false) :
    nameFree x.name = false ∧ Recent x.lastAccess now := by
  obtain ⟨hfree, hexp⟩ := Bool.or_eq_false_iff.mp h
  refine ⟨hfree, ?_⟩
  rcases Nat.lt_or_ge (tick now) (tick x.lastAccess) with hlt | hle
  · exact Nat.lt_add_right _ hlt
  · exact (slotExpired_iff hle).mp hexp

/-- In order, the code takes no entry for expired that is recent by its last access. -/
theorem NtInOrder.kept {s : NtStore} {c : NtCall} (h : NtInOrder s c) {i : Fin MVSMF_KVS_SLOTS}
    (hfree : nameFree (s i).name = false) (hrec : Recent (s i).lastAccess c.now) :
    (∀ max, c.op = .get (s i).name max → (ntStep s c).2.rc = 0) ∧
    ∀ n v, c.op = .set n v → n ≠ (s i).name → ntSetTarget s n c.now ≠ .unused i := by
  obtain ⟨op, now⟩ := c
  constructor
  · intro max hop
    subst hop
    have hexp := (slotExpired_iff (h i hfree rfl)).mpr hrec
    have heff := ntStep_effect s ⟨.get (s i).name max, now⟩
    generalize ntStep s ⟨.get (s i).name max, now⟩ = out at heff
    generalize hn : (s i).name = n at heff
    cases heff with
    | touch j max _ _ => rfl
    | miss n max hall =>
      rw [hall i hfree hn] at hexp
      contradiction
  · intro n v hop hn hunused
    subst hop
    obtain ⟨hno, hexp, hbefore⟩ := ntSetTarget_unused hunused
    have hle : tick (s i).lastAccess ≤ tick now := by
      apply h.2 hno i
      intro j hj
      rcases eq_or_lt_of_le hj with rfl | hlt
      · exact ⟨hfree, hrec⟩
      · exact recent_of_passed (hbefore j hlt)
    rw [NtSlot.freeOrExpired, hfree, (slotExpired_iff hle).mpr hrec] at hexp
    contradiction

/-! ## Runs -/

section
variable {ok : NtShared → NtCall → Prop}

/-- No worker has a clock reading from the future, and no slot either. -/
structure NtClocked (x : NtShared) : Prop where
  pending : ∀ w c, x.pending w = some c → c.now ≤ x.clock
  store : NtBy x.store x.clock

theorem ntClocked {x : NtShared} (h : NtReach ok x) : NtClocked x := by
  induction h with
  | init t => exact ⟨nofun, fun i => UInt64.zero_le⟩
  | step _ hstep ih =>
    cases hstep with
    | tick t ht => exact ⟨fun w c hc => UInt64.le_trans (ih.pending w c hc) ht, ih.store.mono ht⟩
    | call w op _ =>
      refine ⟨fun w' c hc => ?_, ih.store⟩
      by_cases hw : w' = w
      · subst hw
        simp only [NtShared.call, Function.update_self, Option.some.injEq] at hc
        subst hc
        exact UInt64.le_refl _
      · have hold := (Function.update_of_ne hw _ _).symm.trans hc
        exact ih.pending w' c hold
    | latch w c hc _ =>
      refine ⟨fun w' c' hc' => ?_, ih.store.step (ih.pending w c hc)⟩
      by_cases hw : w' = w
      · subst hw
        simp [NtShared.latch] at hc'
      · have hold := (Function.update_of_ne hw _ _).symm.trans hc'
        exact ih.pending w' c' hold

/-- The entry's last access is as late as any of its accesses. -/
def NtDated (time : NtAccess → UInt64) (x : NtShared) : Prop :=
  ∀ i, nameFree (x.store i).name = false → ∀ a ∈ x.accesses i,
    tick (time a) ≤ tick (x.store i).lastAccess

theorem NtDated.latch {time : NtAccess → UInt64} {x : NtShared} (h : NtDated time x) (w : Nat)
    {c : NtCall} (horder : NtInOrder x.store c)
    (htime : tick (time ⟨c.now, x.clock⟩) ≤ tick c.now) : NtDated time (x.latch w c) := by
  intro i hfree a ha
  simp only [NtShared.latch] at hfree ha ⊢
  split at ha
  next hacc =>
    rw [ntStep_accessed _ _ _ hacc]
    rcases List.mem_cons.mp ha with rfl | ha
    · exact htime
    · split at ha
      next hhas =>
        have hold := h i (NtSlot.has_iff.mp hhas).1 a ha
        exact hold.trans (horder.own hacc hhas)
      next => simp at ha
  next hacc =>
    rcases ntStep_not_accessed _ _ _ hacc with hsame | hgone
    · rw [hsame] at hfree ⊢
      exact h i hfree a ha
    · rw [hgone] at hfree
      contradiction

theorem ntDated {time : NtAccess → UInt64} {x : NtShared} (hx : NtReach ok x)
    (hok : ∀ x w c, NtReach ok x → x.pending w = some c → ok x c →
      NtInOrder x.store c ∧ tick (time ⟨c.now, x.clock⟩) ≤ tick c.now) : NtDated time x := by
  induction hx with
  | init t => exact fun i _ a ha => by simp [NtShared.init] at ha
  | step hreach hstep ih =>
    cases hstep with
    | tick t _ => exact ih
    | call w op _ => exact ih
    | latch w c hc hcok =>
      obtain ⟨horder, htime⟩ := hok _ w c hreach hc hcok
      exact ih.latch w horder htime

theorem NtDated.kept {time : NtAccess → UInt64} {x : NtShared} (h : NtDated time x) {c : NtCall}
    (horder : NtInOrder x.store c) : NtKept time x c := by
  intro i hfree a ha hrec
  apply horder.kept hfree
  have := h i hfree a ha
  simp only [Recent] at hrec ⊢
  omega

/-- A call that gets the latch in the tick it sampled is in order. -/
theorem inOrder_of_tick {x : NtShared} (h : NtBy x.store x.clock) {c : NtCall}
    (hc : tick x.clock = tick c.now) : NtInOrder x.store c := by
  have hall : ∀ i, tick (x.store i).lastAccess ≤ tick c.now := by
    intro i
    rw [← hc]
    exact tick_mono (h i)
  rw [NtInOrder]
  split
  · exact fun i _ _ => hall i
  · exact ⟨fun i _ _ => hall i, fun _ i _ => hall i⟩
  · trivial

end

/-- **Recent entries are kept.** In every run whose calls get the latch in order, no call takes an
entry for expired that was set or read less than `KVS_TTL_TICKS` ticks ago, counted from the clock
of that access; and in every run whose calls get the latch in the tick they sampled, none that was
counted from the time the access was made. -/
theorem ntShared_kept (x : NtShared) (c : NtCall) :
    (NtReach (fun x c => NtInOrder x.store c) x → NtInOrder x.store c →
      NtKept (·.sampled) x c) ∧
    (NtReach (fun x c => tick x.clock = tick c.now) x → tick x.clock = tick c.now →
      NtKept (·.latched) x c) := by
  constructor
  · intro hx horder
    have hdated : NtDated (·.sampled) x := ntDated hx fun x w c _ _ hok => ⟨hok, Nat.le_refl _⟩
    exact hdated.kept horder
  · intro hx htick
    have hdated : NtDated (·.latched) x := ntDated hx fun x w c hr _ hok =>
      ⟨inOrder_of_tick (ntClocked hr).store hok, Nat.le_of_eq hok⟩
    exact hdated.kept (inOrder_of_tick (ntClocked hx).store htick)

/-- A set by one worker, then a get by another. -/
theorem ntShared_kept_setGet :
    let k : NtName := Vector.replicate _ 0xD2
    let x := (((NtShared.init 0).call 0 (.set k [7])).latch 0 ⟨.set k [7], 0⟩).call 1 (.get k 1)
    NtKept (·.sampled) x ⟨.get k 1, 0⟩ := by
  intro k x
  have hset : NtInOrder ntStoreInit ⟨.set k [7], 0⟩ := by
    have hinit : ∀ i, tick (ntStoreInit i).lastAccess ≤ tick 0 := fun _ => Nat.le_refl _
    exact ⟨fun i _ _ => hinit i, fun _ i _ => hinit i⟩
  apply (ntShared_kept x ⟨.get k 1, 0⟩).1
  · apply NtReach.step _ (.call _ 1 _ rfl)
    apply NtReach.step _ (.latch _ 0 ⟨.set k [7], 0⟩ rfl hset)
    exact .step (.init 0) (.call _ 0 _ rfl)
  · intro i _ _
    apply tick_mono
    have hby : NtBy (ntStep ntStoreInit ⟨.set k [7], 0⟩).1 0 :=
      NtBy.step (fun _ => UInt64.le_refl 0) (UInt64.le_refl 0)
    exact hby i

/-- A worker samples the clock for a get, the next tick comes, another worker sets the entry, and
the get, which then has the latch, misses it. -/
theorem ntShared_lost :
    ¬ ∀ x w c, NtReach (fun _ _ => True) x → x.pending w = some c →
      ∀ i, nameFree (x.store i).name = false → ∀ a ∈ x.accesses i,
        Recent a.sampled x.clock → Recent a.latched x.clock →
        ∀ max, c.op = .get (x.store i).name max → (ntStep x.store c).2.rc = 0 := by
  intro h
  let k : NtName := Vector.replicate _ 0xD2
  let x := ({ (NtShared.init 0).call 1 (.get k 1) with clock := 0x100000000 }).call 2 (.set k [7])
  have hreach : NtReach (fun _ _ => True) (x.latch 2 ⟨.set k [7], 0x100000000⟩) := by
    apply NtReach.step _ (.latch _ 2 _ rfl trivial)
    apply NtReach.step _ (.call _ 2 _ rfl)
    apply NtReach.step _ (.tick _ 0x100000000 (by decide))
    exact .step (.init 0) (.call _ 1 _ rfl)
  have hmiss := h _ 1 ⟨.get k 1, 0⟩ hreach rfl 0 rfl ⟨0x100000000, 0x100000000⟩
    (List.mem_singleton.mpr rfl) (by decide) (by decide) 1 rfl
  revert hmiss
  decide

end Mvsmf
