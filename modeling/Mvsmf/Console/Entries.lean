import Mvsmf.Console.NtRun
import Mvsmf.Console.Records
import Mvsmf.Lib.System

/-!
# The console requests on their store

Any number of workers issue commands, collect responses and ask for detections at the same time.
Each call of the store samples the clock and then waits for its latch, and between two calls of one
request the others go on. A reading of the clock for a key is never repeated: the clock hands every
value out once.
-/

namespace Mvsmf

/-! ## Workers -/

/-- Where a worker is in its request. -/
inductive EntryWorker where
  | idle
  /-- The command is issued and its key made, and the response is captured. -/
  | issued (tod : UInt64)
  /-- The cursor waits for the latch. -/
  | storing (tod now : UInt64) (val : List UInt8)
  /-- The cursor is stored or was refused its place, and a detection may be stored. -/
  | arming (tod : UInt64)
  | storingDetection (tod now : UInt64) (val : List UInt8)
  /-- A collect looks for its entry. -/
  | looking (name : NtName) (now : UInt64)
  | polling (name : NtName) (val : List UInt8)
  /-- The poll is made, and the cursor is to be written back. -/
  | advancing (name : NtName) (now : UInt64) (val : List UInt8)
    (answer : Except ConsoleError (List Char))
  | detecting (name : NtName) (now : UInt64)

/-- An answer that was made from an entry. -/
inductive EntryAnswer where
  | collected (name : NtName) (answer : Except ConsoleError (List Char))
  | detected (name : NtName) (answer : Except ConsoleError (DetectStatus × List Char))

/-- The store, the clock and the workers; and for the record the commands whose cursors and whose
detections were stored, the names under which a command's entry took the place of a live one, and the
answers. -/
structure Entries where
  store : NtStore
  clock : UInt64
  workers : Nat → EntryWorker
  stored : List UInt64
  armed : List UInt64
  taken : List NtName
  log : List EntryAnswer

def Entries.init (t : UInt64) : Entries where
  store := ntStoreInit
  clock := t
  workers _ := .idle
  stored := []
  armed := []
  taken := []
  log := []

/-- The store has an entry of the name that has not expired. -/
def Entries.Live (x : Entries) (name : NtName) : Prop :=
  ∃ i, nameFree (x.store i).name = false ∧ (x.store i).name = name ∧
    slotExpired (x.store i).lastAccess x.clock = false

instance (x : Entries) (name : NtName) : Decidable (x.Live name) :=
  inferInstanceAs (Decidable (∃ _, _))

def Entries.setWorker (x : Entries) (w : Nat) (s : EntryWorker) : Entries :=
  { x with workers := Function.update x.workers w s }

/-- A command's own entry is stored. -/
def Entries.storeEntry (x : Entries) (name : NtName) (val : List UInt8) (now : UInt64) :
    Entries :=
  { x with
    store := ntSet x.store name val now
    taken := if x.Live name then name :: x.taken else x.taken }

/-- A worker that holds the latch. `async` is whether the request arms a detection behind its cursor,
`snap` the table a detection is looked for in. -/
def Entries.latch (x : Entries) (w : Nat) (async : Bool) (snap : Option (List MtEntry)) :
    Entries :=
  match x.workers w with
  | .storing tod now val =>
    { (x.storeEntry (responseName tod) val now).setWorker w (if async then .arming tod else .idle) with
      stored := tod :: x.stored }
  | .storingDetection tod now val =>
    { (x.storeEntry (detectionName tod) val now).setWorker w .idle with armed := tod :: x.armed }
  | .looking name now =>
    match ntGet x.store name SIZEOF_SOL_CURSOR now with
    | (s, some val) =>
      { x.setWorker w (if val.length < SIZEOF_SOL_CURSOR then .idle else .polling name val) with
        store := s }
    | (_, none) => x.setWorker w .idle
  | .advancing name now val answer =>
    { x.setWorker w .idle with
      store := ntSet x.store name val now
      log := .collected name answer :: x.log }
  | .detecting name now =>
    match ntGet x.store name SIZEOF_SOL_DETECTION now with
    | (s, some val) =>
      { x.setWorker w .idle with
        store := s
        log :=
          if val.length < SIZEOF_SOL_DETECTION then x.log
          else .detected name (detectRecord val snap (clockHi x.clock)) :: x.log }
    | (_, none) => x.setWorker w .idle
  | _ => x

/-- What a worker does without the latch: it gives a command or a record up, builds a record, samples
the clock for a call, or polls the table. -/
inductive EntryMove (clock : UInt64) : EntryWorker → EntryWorker → Prop
  | abandon (tod : UInt64) : EntryMove clock (.issued tod) .idle
  /-- The cursor is not stored. -/
  | refuse (tod : UInt64) : EntryMove clock (.issued tod) (.arming tod)
  | store (tod : UInt64) (cmdlen : UInt8) (cur : SolCursor) :
      EntryMove clock (.issued tod) (.storing tod clock (cursorBytes tod cmdlen cur))
  | arm (tod : UInt64) (det : SolDetection) :
      EntryMove clock (.arming tod) (.storingDetection tod clock (detectionBytes det))
  /-- Nor is the detection. -/
  | disarm (tod : UInt64) : EntryMove clock (.arming tod) .idle
  | collect (key : List Char) : EntryMove clock .idle (.looking (keyToName key) clock)
  | poll (name : NtName) (val : List UInt8) (c : CollectCall) :
      EntryMove clock (.polling name val)
        (.advancing name clock (collectRecord val c).2 (collectRecord val c).1)
  | detect (key : List Char) : EntryMove clock .idle (.detecting (keyToName key) clock)

/-- One step, every worker that gets the latch meeting `ok`. -/
inductive EntryStep (ok : Entries → Nat → Prop) : Entries → Entries → Prop
  | tick (x : Entries) (t : UInt64) : x.clock ≤ t → EntryStep ok x { x with clock := t }
  | issue (x : Entries) (w : Nat) (t : UInt64) : x.workers w = .idle → x.clock < t →
      EntryStep ok x { x.setWorker w (.issued x.clock) with clock := t }
  | move (x : Entries) (w : Nat) (s : EntryWorker) :
      EntryMove x.clock (x.workers w) s → EntryStep ok x (x.setWorker w s)
  | latch (x : Entries) (w : Nat) (async : Bool) (snap : Option (List MtEntry)) : ok x w →
      EntryStep ok x (x.latch w async snap)

def entrySystem (ok : Entries → Nat → Prop) : System Entries where
  init x := ∃ t, x = Entries.init t
  step := EntryStep ok

/-! ## Names in the store -/

/-- The name of the entry that a collect has read and is to write back. -/
def EntryWorker.entry : EntryWorker → Option NtName
  | .polling name _ => some name
  | .advancing name _ _ _ => some name
  | _ => none

/-- The command whose cursor is not stored yet. -/
def EntryWorker.pending : EntryWorker → Option UInt64
  | .issued tod => some tod
  | .storing tod _ _ => some tod
  | _ => none

/-- A command has stored an entry under the name. -/
def Entries.IsKey (x : Entries) (name : NtName) : Prop :=
  (∃ t ∈ x.stored, name = responseName t) ∨ ∃ t ∈ x.armed, name = detectionName t

theorem Entries.IsKey.not_free {x : Entries} {name : NtName} (h : x.IsKey name) :
    nameFree name = false := by
  rcases h with ⟨t, -, rfl⟩ | ⟨t, -, rfl⟩
  · exact nameFree_responseName t
  · exact nameFree_detectionName t

theorem ntSet_slot (s : NtStore) (name : NtName) (val : List UInt8) (now : UInt64)
    (i : Fin MVSMF_KVS_SLOTS) :
    (ntSet s name val now i).name = name ∨ ntSet s name val now i = s i := by
  by_cases hi : i = (ntSetTarget s name now).slot
  · left
    rw [hi, ntSet, Function.update_self]
  · exact Or.inr (Function.update_of_ne hi _ _)

theorem ntUnique_ntSet {s : NtStore} (h : NtUnique s) {name : NtName} (hname : nameFree name = false)
    (val : List UInt8) (now : UInt64) : NtUnique (ntSet s name val now) :=
  ntUnique_update h _ _ (Or.inr (ntSetTarget_alone h hname now))

theorem ntGet_name (s : NtStore) (name : NtName) (max : Nat) (now : UInt64)
    (i : Fin MVSMF_KVS_SLOTS) : ((ntGet s name max now).1 i).name = (s i).name := by
  rw [ntGet]
  cases hfirst : Slots.first (·.answers name now) s with
  | none => rfl
  | some j =>
    by_cases hi : i = j
    · subst hi
      simp
    · exact congrArg NtSlot.name (Function.update_of_ne hi _ _)

theorem ntUnique_ntGet {s : NtStore} (h : NtUnique s) (name : NtName) (max : Nat) (now : UInt64) :
    NtUnique (ntGet s name max now).1 := by
  intro i j hfree hsame
  rw [ntGet_name] at hfree hsame
  rw [ntGet_name] at hsame
  exact h i j hfree hsame

/-- What a get answers is the value of an entry of its name. -/
theorem ntGet_some {s : NtStore} {name : NtName} {max : Nat} {now : UInt64} {val : List UInt8}
    (h : (ntGet s name max now).2 = some val) :
    ∃ i, nameFree (s i).name = false ∧ (s i).name = name := by
  rw [ntGet] at h
  cases hfirst : Slots.first (·.answers name now) s with
  | none => simp [hfirst] at h
  | some i =>
    obtain ⟨hfree, hname, -⟩ := NtSlot.answers_iff.mp (Slots.first_some hfirst)
    exact ⟨i, hfree, hname⟩

/-! ## What holds in every run -/

/-- Every entry has the name of a command that stored it, no two have one name, and a command whose
cursor is not stored has a key of its own. -/
structure Entries.Inv (x : Entries) : Prop where
  names : ∀ i, nameFree (x.store i).name = false → x.IsKey (x.store i).name
  entry : ∀ w, ∀ name ∈ (x.workers w).entry, x.IsKey name
  unique : NtUnique x.store
  stored : ∀ t ∈ x.stored, t < x.clock
  pending : ∀ w, ∀ t ∈ (x.workers w).pending, t < x.clock ∧ t ∉ x.stored
  apart : ∀ w w', ∀ t ∈ (x.workers w).pending, t ∈ (x.workers w').pending → w = w'

theorem Entries.inv_init (t : UInt64) : (Entries.init t).Inv where
  names i hfree := by
    rw [show ((Entries.init t).store i).name = NtSlot.empty.name from rfl, nameFree_empty] at hfree
    contradiction
  entry w name h := by cases h
  unique := ntUnique_init
  stored t h := by cases h
  pending w t h := by cases h
  apart w w' t h := by cases h

namespace Entries

variable {x : Entries}

/-- More keys and another store keep the invariant if the store's names are keys. -/
theorem IsKey.mono {y : Entries} {name : NtName} (h : x.IsKey name)
    (hstored : x.stored ⊆ y.stored) (harmed : x.armed ⊆ y.armed) : y.IsKey name := by
  rcases h with ⟨t, ht, rfl⟩ | ⟨t, ht, rfl⟩
  · exact Or.inl ⟨t, hstored ht, rfl⟩
  · exact Or.inr ⟨t, harmed ht, rfl⟩

/-- A worker goes on with a state that brings no entry and no command that it had not. -/
theorem Inv.setWorker (h : x.Inv) (w : Nat) {s : EntryWorker}
    (hentry : ∀ name ∈ s.entry, x.IsKey name)
    (hpending : ∀ t ∈ s.pending, t ∈ (x.workers w).pending) : (x.setWorker w s).Inv where
  names := h.names
  entry w' name hname := by
    by_cases hw : w' = w
    · subst hw
      exact hentry name (by simpa [Entries.setWorker] using hname)
    · exact h.entry w' name (by simpa [Entries.setWorker, Function.update_of_ne hw] using hname)
  unique := h.unique
  stored := h.stored
  pending w' t ht := by
    by_cases hw : w' = w
    · subst hw
      exact h.pending w' t (hpending t (by simpa [Entries.setWorker] using ht))
    · exact h.pending w' t (by simpa [Entries.setWorker, Function.update_of_ne hw] using ht)
  apart := by
    have hold : ∀ w' t, t ∈ ((x.setWorker w s).workers w').pending →
        t ∈ (x.workers w').pending := by
      intro w' t ht
      by_cases hw : w' = w
      · subst hw
        exact hpending t (by simpa [Entries.setWorker] using ht)
      · simpa [Entries.setWorker, Function.update_of_ne hw] using ht
    exact fun w' w'' t ht ht' => h.apart w' w'' t (hold w' t ht) (hold w'' t ht')

/-- Another store with names that are keys. -/
theorem Inv.setStore (h : x.Inv) {s : NtStore} (hnames : ∀ i, nameFree (s i).name = false →
    x.IsKey (s i).name) (hunique : NtUnique s) (taken : List NtName) (log : List EntryAnswer) :
    ({ x with store := s, taken := taken, log := log } : Entries).Inv where
  names := hnames
  entry := h.entry
  unique := hunique
  stored := h.stored
  pending := h.pending
  apart := h.apart

theorem Inv.setEntry (h : x.Inv) {name : NtName} (hname : x.IsKey name) (val : List UInt8)
    (now : UInt64) (taken : List NtName) (log : List EntryAnswer) :
    ({ x with store := ntSet x.store name val now, taken := taken, log := log } : Entries).Inv := by
  refine h.setStore (fun i hfree => ?_) (ntUnique_ntSet h.unique hname.not_free val now) taken log
  rcases ntSet_slot x.store name val now i with hi | hi
  · rwa [hi]
  · rw [hi] at hfree ⊢
    exact h.names i hfree

theorem Inv.getEntry (h : x.Inv) (name : NtName) (max : Nat) (now : UInt64) (log : List EntryAnswer) :
    ({ x with store := (ntGet x.store name max now).1, log := log } : Entries).Inv := by
  refine h.setStore (fun i hfree => ?_) (ntUnique_ntGet h.unique name max now) x.taken log
  rw [ntGet_name] at hfree ⊢
  exact h.names i hfree

/-- What a get answers is the entry of a key. -/
theorem Inv.isKey_of_get (h : x.Inv) {name : NtName} {max : Nat} {now : UInt64} {val : List UInt8}
    (hget : (ntGet x.store name max now).2 = some val) : x.IsKey name := by
  obtain ⟨i, hfree, hi⟩ := ntGet_some hget
  rw [← hi]
  exact h.names i hfree

/-- A cursor is stored under a name that no entry has. -/
theorem Inv.fresh (h : x.Inv) {w : Nat} {tod : UInt64} (hw : tod ∈ (x.workers w).pending) :
    ∀ i, nameFree (x.store i).name = false → (x.store i).name ≠ responseName tod := by
  intro i hfree hi
  rcases h.names i hfree with ⟨t, ht, hname⟩ | ⟨t, -, hname⟩
  · rw [hi] at hname
    exact (h.pending w tod hw).2 (responseName_inj hname ▸ ht)
  · rw [hi] at hname
    exact responseName_ne_detectionName tod t hname

/-! ## The steps -/

theorem Inv.tick (h : x.Inv) {t : UInt64} (ht : x.clock ≤ t) :
    ({ x with clock := t } : Entries).Inv where
  names := h.names
  entry := h.entry
  unique := h.unique
  stored t' ht' := UInt64.lt_of_lt_of_le (h.stored t' ht') ht
  pending w t' ht' := ⟨UInt64.lt_of_lt_of_le (h.pending w t' ht').1 ht, (h.pending w t' ht').2⟩
  apart := h.apart

/-- A command takes a reading of the clock that no other has. -/
theorem Inv.issue (h : x.Inv) {w : Nat} {t : UInt64} (hidle : x.workers w = .idle)
    (ht : x.clock < t) : ({ x.setWorker w (.issued x.clock) with clock := t } : Entries).Inv := by
  have hold : ∀ w', w' ≠ w →
      ({ x.setWorker w (.issued x.clock) with clock := t } : Entries).workers w' = x.workers w' :=
    fun w' hw => Function.update_of_ne hw _ _
  have hnew : ({ x.setWorker w (.issued x.clock) with clock := t } : Entries).workers w =
      .issued x.clock := Function.update_self _ _ _
  refine ⟨h.names, fun w' name hname => ?_, h.unique,
    fun t' ht' => UInt64.lt_trans (h.stored t' ht') ht, fun w' t' ht' => ?_,
    fun w' w'' t' ht' ht'' => ?_⟩
  · by_cases hw : w' = w
    · subst hw
      rw [hnew] at hname
      cases hname
    · rw [hold w' hw] at hname
      exact h.entry w' name hname
  · by_cases hw : w' = w
    · subst hw
      rw [hnew] at ht'
      cases ht'
      exact ⟨ht, fun hmem => UInt64.lt_irrefl _ (h.stored _ hmem)⟩
    · rw [hold w' hw] at ht'
      exact ⟨UInt64.lt_trans (h.pending w' t' ht').1 ht, (h.pending w' t' ht').2⟩
  · by_cases hw : w' = w <;> by_cases hw' : w'' = w
    · rw [hw, hw']
    · subst hw
      rw [hnew] at ht'
      cases ht'
      rw [hold w'' hw'] at ht''
      exact absurd (h.pending w'' _ ht'').1 (UInt64.lt_irrefl _)
    · subst hw'
      rw [hnew] at ht''
      cases ht''
      rw [hold w' hw] at ht'
      exact absurd (h.pending w' _ ht').1 (UInt64.lt_irrefl _)
    · rw [hold w' hw] at ht'
      rw [hold w'' hw'] at ht''
      exact h.apart w' w'' t' ht' ht''

theorem Inv.move (h : x.Inv) {w : Nat} {s : EntryWorker}
    (hmove : EntryMove x.clock (x.workers w) s) : (x.setWorker w s).Inv := by
  generalize hw : x.workers w = s₀ at hmove
  cases hmove with
  | abandon tod => exact h.setWorker w nofun nofun
  | refuse tod => exact h.setWorker w nofun nofun
  | store tod cmdlen cur =>
    refine h.setWorker w nofun fun t ht => ?_
    rw [hw]
    exact ht
  | arm tod det => exact h.setWorker w nofun nofun
  | disarm tod => exact h.setWorker w nofun nofun
  | collect key => exact h.setWorker w nofun nofun
  | poll name val c =>
    refine h.setWorker w (fun n hn => h.entry w n ?_) nofun
    rw [hw]
    exact hn
  | detect key => exact h.setWorker w nofun nofun

/-- The command of the worker is one whose cursor is stored. -/
theorem Inv.addStored (h : x.Inv) {w : Nat} {tod : UInt64} (hw : tod ∈ (x.workers w).pending)
    {s : EntryWorker} (hentry : s.entry = none) (hpending : s.pending = none) :
    ({ x.setWorker w s with stored := tod :: x.stored } : Entries).Inv := by
  have hset : (x.setWorker w s).Inv := by
    refine h.setWorker w (fun name hname => ?_) fun t ht => ?_
    · simp [hentry] at hname
    · simp [hpending] at ht
  refine ⟨fun i hfree => (h.names i hfree).mono (List.subset_cons_self _ _) (List.Subset.refl _),
    fun w' name hname => ?_, h.unique, fun t ht => ?_, fun w' t ht => ?_, hset.apart⟩
  · have hkey : x.IsKey name := hset.entry w' name hname
    exact hkey.mono (List.subset_cons_self _ _) (List.Subset.refl _)
  · rcases List.mem_cons.mp ht with rfl | ht
    · exact (h.pending w _ hw).1
    · exact h.stored t ht
  · have hclock := hset.pending w' t ht
    refine ⟨hclock.1, fun hmem => ?_⟩
    rcases List.mem_cons.mp hmem with rfl | hmem
    · have hne : w' ≠ w := by
        rintro rfl
        have hself : (x.setWorker w' s).workers w' = s := Function.update_self _ _ _
        have ht : t ∈ ((x.setWorker w' s).workers w').pending := ht
        rw [hself, hpending] at ht
        cases ht
      have hother : (x.setWorker w s).workers w' = x.workers w' := Function.update_of_ne hne _ _
      have ht : t ∈ ((x.setWorker w s).workers w').pending := ht
      rw [hother] at ht
      exact hne (h.apart w' w t ht hw)
    · exact hclock.2 hmem

theorem Inv.addArmed (h : x.Inv) (tod : UInt64) :
    ({ x with armed := tod :: x.armed } : Entries).Inv where
  names i hfree := (h.names i hfree).mono (List.Subset.refl _) (List.subset_cons_self _ _)
  entry w name hname := (h.entry w name hname).mono (List.Subset.refl _) (List.subset_cons_self _ _)
  unique := h.unique
  stored := h.stored
  pending := h.pending
  apart := h.apart

theorem Inv.latch (h : x.Inv) (w : Nat) (async : Bool) (snap : Option (List MtEntry)) :
    (x.latch w async snap).Inv := by
  rw [Entries.latch]
  cases hw : x.workers w with
  | storing tod now val =>
    have hpending : tod ∈ (x.workers w).pending := by
      rw [hw]
      rfl
    have hadd := h.addStored hpending (s := if async then .arming tod else .idle)
      (by cases async <;> rfl) (by cases async <;> rfl)
    exact hadd.setEntry (Or.inl ⟨tod, List.mem_cons_self, rfl⟩) val now _ _
  | storingDetection tod now val =>
    have hadd := (h.setWorker w (s := .idle) nofun nofun).addArmed tod
    exact hadd.setEntry (Or.inr ⟨tod, List.mem_cons_self, rfl⟩) val now _ _
  | looking name now =>
    dsimp only
    cases hget : ntGet x.store name SIZEOF_SOL_CURSOR now with
    | mk s out =>
      cases out with
      | none => exact h.setWorker w nofun nofun
      | some val =>
        have hkey := h.isKey_of_get (congrArg Prod.snd hget)
        have hset : (x.setWorker w
            (if val.length < SIZEOF_SOL_CURSOR then .idle else .polling name val)).Inv := by
          refine h.setWorker w (fun n hn => ?_) fun t ht => ?_
          · split at hn
            · cases hn
            · cases hn
              exact hkey
          · split at ht <;> cases ht
        have hstore := hset.getEntry name SIZEOF_SOL_CURSOR now x.log
        rw [show (x.setWorker w _).store = x.store from rfl, hget] at hstore
        exact hstore
  | advancing name now val answer =>
    have hkey : x.IsKey name := h.entry w name (by rw [hw]; rfl)
    exact (h.setWorker w (s := .idle) nofun nofun).setEntry hkey val now _ _
  | detecting name now =>
    dsimp only
    cases hget : ntGet x.store name SIZEOF_SOL_DETECTION now with
    | mk s out =>
      cases out with
      | none => exact h.setWorker w nofun nofun
      | some val =>
        have hset : (x.setWorker w .idle).Inv := h.setWorker w nofun nofun
        have hstore := hset.getEntry name SIZEOF_SOL_DETECTION now
          (if val.length < SIZEOF_SOL_DETECTION then x.log
            else .detected name (detectRecord val snap (clockHi x.clock)) :: x.log)
        rw [show (x.setWorker w .idle).store = x.store from rfl, hget] at hstore
        exact hstore
  | idle => exact h
  | issued tod => exact h
  | arming tod => exact h
  | polling name val => exact h

end Entries

theorem entries_invariant (ok : Entries → Nat → Prop) : (entrySystem ok).Invariant Entries.Inv where
  init := by
    rintro _ ⟨t, rfl⟩
    exact Entries.inv_init t
  step h hstep := by
    cases hstep with
    | tick t ht => exact h.tick ht
    | issue w t hidle ht => exact h.issue hidle ht
    | move w s hmove => exact h.move hmove
    | latch w async snap _ => exact h.latch w async snap

end Mvsmf
