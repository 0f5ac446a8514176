import Mvsmf.Console.Entries

/-!
# Whose entry a key finds

A response key is a whole clock reading and no other command has it. A detection key is 28 bits of
one, which come again every 2 ^ 28 microseconds, while an entry lives for 300 ticks of 2 ^ 20. And as
the two records are of one size, a key of the one kind finds an entry for the endpoint of the other.
-/

namespace Mvsmf

/-! ## Live entries have keys of their own -/

/-- A detection that is stored has other microseconds than those whose entries are live. -/
def MicrosApart (x : Entries) (w : Nat) : Prop :=
  match x.workers w with
  | .storingDetection tod _ _ =>
    ∀ t ∈ x.armed, x.Live (detectionName t) → detectionMicros t ≠ detectionMicros tod
  | _ => True

/-- No two entries have one key, and no command has taken the place of a live entry. -/
structure KeysApart (x : Entries) : Prop where
  unique : NtUnique x.store
  kept : x.taken = []

/-- A detection comes to a live entry exactly if its microseconds are those of one. -/
theorem Entries.Inv.live_iff {x : Entries} (h : x.Inv) {w : Nat} {tod now : UInt64}
    {val : List UInt8} (hw : x.workers w = .storingDetection tod now val) :
    x.Live (detectionName tod) ↔ ¬ MicrosApart x w := by
  simp only [MicrosApart, hw, not_forall, not_ne_iff, exists_prop]
  constructor
  · intro hlive
    obtain ⟨i, hfree, hi, hage⟩ := hlive
    rcases h.names i hfree with ⟨t, -, hname⟩ | ⟨t, ht, hname⟩
    · rw [hi] at hname
      exact absurd hname.symm (responseName_ne_detectionName t tod)
    · rw [hi] at hname
      exact ⟨t, ht, ⟨i, hfree, hi.trans hname, hage⟩, (detectionName_eq_iff t tod).mp hname.symm⟩
  · rintro ⟨t, -, hlive, hmicros⟩
    rwa [← (detectionName_eq_iff t tod).mpr hmicros]

/-- A cursor comes to no entry. -/
theorem Entries.Inv.not_live {x : Entries} (h : x.Inv) {w : Nat} {tod : UInt64}
    (hw : tod ∈ (x.workers w).pending) : ¬ x.Live (responseName tod) := by
  rintro ⟨i, hfree, hi, -⟩
  exact h.fresh hw i hfree hi

theorem taken_latch {x : Entries} (h : x.Inv) {w : Nat} (hok : MicrosApart x w)
    (htaken : x.taken = []) (async : Bool) (snap : Option (List MtEntry)) :
    (x.latch w async snap).taken = [] := by
  rw [Entries.latch]
  cases hw : x.workers w with
  | storing tod now val =>
    have hpending : tod ∈ (x.workers w).pending := by
      rw [hw]
      rfl
    have hlive := h.not_live hpending
    simp [Entries.setWorker, Entries.storeEntry, hlive, htaken]
  | storingDetection tod now val =>
    have hlive : ¬ x.Live (detectionName tod) := fun hlive => (h.live_iff hw).mp hlive hok
    simp [Entries.setWorker, Entries.storeEntry, hlive, htaken]
  | looking name now =>
    dsimp only
    split <;> exact htaken
  | advancing name now val answer => exact htaken
  | detecting name now =>
    dsimp only
    split <;> exact htaken
  | _ => exact htaken

theorem microsApart_invariant : (entrySystem MicrosApart).Invariant
    fun x => x.Inv ∧ x.taken = [] := by
  refine (entries_invariant MicrosApart).and ?_ ?_
  · rintro _ ⟨t, rfl⟩
    rfl
  · intro x y hinv htaken hstep
    cases hstep with
    | tick t ht => exact htaken
    | issue w t hidle ht => exact htaken
    | move w s hmove => exact htaken
    | latch w async snap hok => exact taken_latch hinv hok htaken async snap

/-- **Keys of live entries.** In every run in which each detection that is stored has other
microseconds than the live ones, the keys of live entries are different and no command takes over the
entry of another. And in every run, a detection takes over a live entry exactly if it is stored with
the microseconds of one. -/
theorem entryKeys_apart (x : Entries) :
    ((entrySystem MicrosApart).Reach x → KeysApart x) ∧
      ((entrySystem fun _ _ => True).Reach x → ∀ w tod now val,
        x.workers w = .storingDetection tod now val →
          (x.Live (detectionName tod) ↔ ¬ MicrosApart x w)) := by
  constructor
  · intro hx
    obtain ⟨hinv, htaken⟩ := microsApart_invariant.reach hx
    exact ⟨hinv.unique, htaken⟩
  · intro hx w tod now val hw
    exact ((entries_invariant _).reach hx).live_iff hw

/-! ## Runs of one worker -/

/-- A whole command, from its reading of the clock to its cursor in the store. -/
def Entries.command (x : Entries) (w : Nat) (t : UInt64) (cur : SolCursor) (async : Bool) :
    Entries :=
  (({ x.setWorker w (.issued x.clock) with clock := t } : Entries).setWorker w
    (.storing x.clock t (cursorBytes x.clock 1 cur))).latch w async none

def Entries.armDetection (x : Entries) (w : Nat) (tod : UInt64) (det : SolDetection) : Entries :=
  (x.setWorker w (.storingDetection tod x.clock (detectionBytes det))).latch w false none

section
variable {ok : Entries → Nat → Prop} {x : Entries}

theorem Entries.setWorker_self (x : Entries) (w : Nat) (s : EntryWorker) :
    (x.setWorker w s).workers w = s := Function.update_self _ _ _

theorem reach_command (hx : (entrySystem ok).Reach x) {w : Nat} {t : UInt64} {cur : SolCursor}
    {async : Bool} (hidle : x.workers w = .idle) (ht : x.clock < t)
    (hok : ∀ y tod now val, y.workers w = .storing tod now val → ok y w) :
    (entrySystem ok).Reach (x.command w t cur async) := by
  have hissued : (entrySystem ok).Reach { x.setWorker w (.issued x.clock) with clock := t } :=
    hx.step (.issue x w t hidle ht)
  have hstoring := hissued.step (.move _ w (.storing x.clock t (cursorBytes x.clock 1 cur)) (by
    rw [show ({ x.setWorker w (.issued x.clock) with clock := t } : Entries).workers w =
      .issued x.clock from Function.update_self _ _ _]
    exact .store _ _ _))
  exact hstoring.step (.latch _ w async none (hok _ _ _ _ (Entries.setWorker_self _ _ _)))

theorem reach_armDetection (hx : (entrySystem ok).Reach x) {w : Nat} {tod : UInt64}
    {det : SolDetection} (harming : x.workers w = .arming tod)
    (hok : ok (x.setWorker w (.storingDetection tod x.clock (detectionBytes det))) w) :
    (entrySystem ok).Reach (x.armDetection w tod det) := by
  have hstoring := hx.step (.move x w (.storingDetection tod x.clock (detectionBytes det)) (by
    rw [harming]
    exact .arm _ _))
  exact hstoring.step (.latch _ w false none hok)

end

/-- A command that waits for a message, issued at 0. -/
def firstCommand : Entries := (Entries.init 0).command 0 1 ⟨0, none, ['D']⟩ true

def firstDetection : Entries := firstCommand.armDetection 0 0 ⟨0, 30, ⟨none, 0⟩, ['X']⟩

theorem reach_firstCommand {ok : Entries → Nat → Prop}
    (hok : ∀ y tod now val, y.workers 0 = .storing tod now val → ok y 0) :
    (entrySystem ok).Reach firstCommand :=
  reach_command (.init ⟨0, rfl⟩) rfl (by decide) hok

theorem microsApart_storing {y : Entries} {w : Nat} {tod now : UInt64} {val : List UInt8}
    (hw : y.workers w = .storing tod now val) : MicrosApart y w := by
  simp [MicrosApart, hw]

theorem entryKeys_apart_firstDetection :
    KeysApart firstDetection ∧ (firstCommand.setWorker 0
      (.storingDetection 0 1 (detectionBytes ⟨0, 30, ⟨none, 0⟩, ['X']⟩))).workers 0 =
        .storingDetection 0 1 (detectionBytes ⟨0, 30, ⟨none, 0⟩, ['X']⟩) ∧
    ((firstCommand.setWorker 0
      (.storingDetection 0 1 (detectionBytes ⟨0, 30, ⟨none, 0⟩, ['X']⟩))).Live (detectionName 0) ↔
        ¬ MicrosApart (firstCommand.setWorker 0
          (.storingDetection 0 1 (detectionBytes ⟨0, 30, ⟨none, 0⟩, ['X']⟩))) 0) := by
  refine ⟨(entryKeys_apart firstDetection).1 ?_, Entries.setWorker_self _ _ _,
    (entryKeys_apart _).2 ?_ 0 0 1 _ (Entries.setWorker_self _ _ _)⟩
  · refine reach_armDetection (reach_firstCommand fun y tod now val => microsApart_storing) rfl ?_
    intro t ht
    cases ht
  · exact (reach_firstCommand fun _ _ _ _ _ => trivial).step (.move _ 0 _ (.arm _ _))

/-- Two detections 2 ^ 28 microseconds apart, the first of them live. -/
theorem entryKeys_collide :
    ¬ ∀ x, (entrySystem fun _ _ => True).Reach x → KeysApart x := by
  intro h
  let later : Entries := { firstDetection with clock := 0x10000000000 }
  let second := (later.command 0 0x10000000001 ⟨0, none, ['D']⟩ true).armDetection 0 0x10000000000
    ⟨256, 30, ⟨none, 0⟩, ['X']⟩
  have hfirst : (entrySystem fun _ _ => True).Reach firstDetection :=
    reach_armDetection (reach_firstCommand fun _ _ _ _ _ => trivial) rfl trivial
  have hlater : (entrySystem fun _ _ => True).Reach later :=
    hfirst.step (.tick _ _ (by decide +kernel))
  have hsecond : (entrySystem fun _ _ => True).Reach second :=
    reach_armDetection (reach_command hlater rfl (by decide +kernel) fun _ _ _ _ _ => trivial) rfl
      trivial
  have htaken := (h second hsecond).kept
  revert htaken
  decide +kernel

/-! ## Each endpoint its own entries -/

def Entries.IsCursorKey (x : Entries) (name : NtName) : Prop := ∃ t ∈ x.stored, name = responseName t

def Entries.IsDetectionKey (x : Entries) (name : NtName) : Prop :=
  ∃ t ∈ x.armed, name = detectionName t

/-- A collect does not come to a live detection with the key it was given, nor a detection request to
a live cursor. -/
def KindsApart (x : Entries) (w : Nat) : Prop :=
  match x.workers w with
  | .looking name now =>
    x.IsDetectionKey name → (ntGet x.store name SIZEOF_SOL_CURSOR now).2 = none
  | .detecting name now =>
    x.IsCursorKey name → (ntGet x.store name SIZEOF_SOL_DETECTION now).2 = none
  | _ => True

/-- A collect has answered from a cursor and written it back, a detection request from a detection;
and the entry was of no other kind. -/
def Entries.KindOk (x : Entries) : EntryAnswer → Prop
  | .collected name _ => x.IsCursorKey name ∧ ¬ x.IsDetectionKey name
  | .detected name _ => x.IsDetectionKey name ∧ ¬ x.IsCursorKey name

/-- Every answer was made from an entry of its kind. -/
def KindsKept (x : Entries) : Prop := ∀ e ∈ x.log, x.KindOk e

theorem Entries.IsCursorKey.not_detection {x : Entries} {name : NtName} (h : x.IsCursorKey name) :
    ¬ x.IsDetectionKey name := by
  obtain ⟨t, -, rfl⟩ := h
  rintro ⟨t', -, h⟩
  exact responseName_ne_detectionName t t' h

theorem Entries.IsDetectionKey.not_cursor {x : Entries} {name : NtName}
    (h : x.IsDetectionKey name) : ¬ x.IsCursorKey name :=
  fun h' => h'.not_detection h

/-- The entry that a get finds is of the one kind exactly if the name is none of the other. -/
theorem Entries.Inv.cursor_iff {x : Entries} (h : x.Inv) {name : NtName} {max : Nat} {now : UInt64}
    {val : List UInt8} (hget : (ntGet x.store name max now).2 = some val) :
    (x.IsCursorKey name ↔ ¬ x.IsDetectionKey name) ∧
      (x.IsDetectionKey name ↔ ¬ x.IsCursorKey name) := by
  have hkey : x.IsCursorKey name ∨ x.IsDetectionKey name := h.isKey_of_get hget
  have hnot := fun h : x.IsCursorKey name => h.not_detection
  tauto

/-- What the answers say, and what a collect has in hand. -/
structure KindsInv (x : Entries) : Prop where
  log : KindsKept x
  entry : ∀ w, ∀ name ∈ (x.workers w).entry, x.IsCursorKey name

theorem Entries.KindOk.mono {x y : Entries} {e : EntryAnswer} (h : x.KindOk e)
    (hstored : x.stored ⊆ y.stored) (harmed : x.armed ⊆ y.armed) : y.KindOk e := by
  cases e with
  | collected name answer =>
    obtain ⟨t, ht, rfl⟩ := h.1
    have hkey : y.IsCursorKey (responseName t) := ⟨t, hstored ht, rfl⟩
    exact ⟨hkey, hkey.not_detection⟩
  | detected name answer =>
    obtain ⟨t, ht, rfl⟩ := h.1
    have hkey : y.IsDetectionKey (detectionName t) := ⟨t, harmed ht, rfl⟩
    exact ⟨hkey, hkey.not_cursor⟩

namespace KindsInv

variable {x : Entries}

/-- More commands, and answers that are known to be right. -/
theorem mono {y : Entries} (h : KindsInv x) (hstored : x.stored ⊆ y.stored)
    (harmed : x.armed ⊆ y.armed) (hlog : ∀ e ∈ y.log, e ∈ x.log ∨ y.KindOk e)
    (hentry : ∀ w, ∀ name ∈ (y.workers w).entry,
      name ∈ (x.workers w).entry ∨ y.IsCursorKey name) : KindsInv y where
  log e he := by
    rcases hlog e he with he | he
    · exact (h.log e he).mono hstored harmed
    · exact he
  entry w name hname := by
    rcases hentry w name hname with hname | hname
    · obtain ⟨t, ht, rfl⟩ := h.entry w name hname
      exact ⟨t, hstored ht, rfl⟩
    · exact hname

/-- The entries of the workers behind a step of one of them. -/
theorem entry_setWorker {y : Entries} {w : Nat} {s : EntryWorker}
    (hs : ∀ name ∈ s.entry, y.IsCursorKey name) (w' : Nat) :
    ∀ name ∈ ((x.setWorker w s).workers w').entry,
      name ∈ (x.workers w').entry ∨ y.IsCursorKey name := by
  intro name hname
  by_cases hw : w' = w
  · subst hw
    rw [Entries.setWorker_self] at hname
    exact Or.inr (hs name hname)
  · rw [show (x.setWorker w s).workers w' = x.workers w' from Function.update_of_ne hw _ _] at hname
    exact Or.inl hname

theorem move (h : KindsInv x) {w : Nat} {s : EntryWorker}
    (hmove : EntryMove x.clock (x.workers w) s) : KindsInv (x.setWorker w s) := by
  refine h.mono (List.Subset.refl _) (List.Subset.refl _) (fun e he => Or.inl he)
    (entry_setWorker fun name hname => ?_)
  generalize hw : x.workers w = s₀ at hmove
  cases hmove with
  | poll n val c =>
    refine h.entry w name ?_
    rw [hw]
    exact hname
  | _ => cases hname

theorem latch (h : KindsInv x) (hinv : x.Inv) {w : Nat} (hok : KindsApart x w) (async : Bool)
    (snap : Option (List MtEntry)) : KindsInv (x.latch w async snap) := by
  rw [Entries.latch]
  cases hw : x.workers w with
  | storing tod now val =>
    refine h.mono (List.subset_cons_self _ _) (List.Subset.refl _) (fun e he => Or.inl he)
      (entry_setWorker (x := x) fun name hname => ?_)
    cases async <;> cases hname
  | storingDetection tod now val =>
    exact h.mono (List.Subset.refl _) (List.subset_cons_self _ _) (fun e he => Or.inl he)
      (entry_setWorker (x := x) (by simp [EntryWorker.entry]))
  | looking name now =>
    have hidle : KindsInv (x.setWorker w .idle) := h.mono (List.Subset.refl _) (List.Subset.refl _)
      (fun e he => Or.inl he) (entry_setWorker (by simp [EntryWorker.entry]))
    dsimp only
    cases hget : ntGet x.store name SIZEOF_SOL_CURSOR now with
    | mk s out =>
      cases out with
      | none => exact hidle
      | some val =>
        -- the get has found an entry, so the key is no detection's
        have hsome : (ntGet x.store name SIZEOF_SOL_CURSOR now).2 = some val :=
          congrArg Prod.snd hget
        have hcursor : x.IsCursorKey name := by
          refine (hinv.cursor_iff hsome).1.mpr fun hdet => ?_
          simp only [KindsApart, hw] at hok
          rw [hok hdet] at hsome
          cases hsome
        refine h.mono (List.Subset.refl _) (List.Subset.refl _) (fun e he => Or.inl he)
          (entry_setWorker (x := x) fun n hn => ?_)
        split at hn
        · cases hn
        · cases hn
          exact hcursor
  | advancing name now val answer =>
    have hcursor : x.IsCursorKey name := h.entry w name (by rw [hw]; rfl)
    refine h.mono (List.Subset.refl _) (List.Subset.refl _) (fun e he => ?_)
      (entry_setWorker (x := x) (by simp [EntryWorker.entry]))
    rcases List.mem_cons.mp he with rfl | he
    · exact Or.inr ⟨hcursor, hcursor.not_detection⟩
    · exact Or.inl he
  | detecting name now =>
    have hidle : KindsInv (x.setWorker w .idle) := h.mono (List.Subset.refl _) (List.Subset.refl _)
      (fun e he => Or.inl he) (entry_setWorker (by simp [EntryWorker.entry]))
    dsimp only
    cases hget : ntGet x.store name SIZEOF_SOL_DETECTION now with
    | mk s out =>
      cases out with
      | none => exact hidle
      | some val =>
        have hsome : (ntGet x.store name SIZEOF_SOL_DETECTION now).2 = some val :=
          congrArg Prod.snd hget
        have hdet : x.IsDetectionKey name := by
          refine (hinv.cursor_iff hsome).2.mpr fun hcursor => ?_
          simp only [KindsApart, hw] at hok
          rw [hok hcursor] at hsome
          cases hsome
        refine h.mono (List.Subset.refl _) (List.Subset.refl _) (fun e he => ?_)
          (entry_setWorker (x := x) (by simp [EntryWorker.entry]))
        have he : e ∈ if val.length < SIZEOF_SOL_DETECTION then x.log
          else .detected name (detectRecord val snap (clockHi x.clock)) :: x.log := he
        split at he
        · exact Or.inl he
        · rcases List.mem_cons.mp he with rfl | he
          · exact Or.inr ⟨hdet, hdet.not_cursor⟩
          · exact Or.inl he
  | _ => exact h

end KindsInv

theorem kindsApart_invariant : (entrySystem KindsApart).Invariant fun x => x.Inv ∧ KindsInv x := by
  refine (entries_invariant KindsApart).and ?_ ?_
  · rintro _ ⟨t, rfl⟩
    exact ⟨nofun, fun w name hname => nomatch hname⟩
  · intro x y hinv h hstep
    cases hstep with
    | tick t ht => exact ⟨h.log, h.entry⟩
    | issue w t hidle ht =>
      exact h.mono (List.Subset.refl _) (List.Subset.refl _) (fun e he => Or.inl he)
        (KindsInv.entry_setWorker (x := x) nofun)
    | move w s hmove => exact h.move hmove
    | latch w async snap hok => exact h.latch hinv hok async snap

/-- **Each endpoint its own entries.** In every run in which no collect comes to a live detection and
no detection request to a live cursor, every collect that answers from an entry, and writes it back,
does so from a command's cursor, and every detection request from a detection. And in every run, the
entry that a request has found is of its kind exactly if the request meets that condition. -/
theorem entryKinds_kept (x : Entries) :
    ((entrySystem KindsApart).Reach x → KindsKept x) ∧
      ((entrySystem fun _ _ => True).Reach x →
        (∀ w name now val, x.workers w = .looking name now →
          (ntGet x.store name SIZEOF_SOL_CURSOR now).2 = some val →
            (x.IsCursorKey name ↔ KindsApart x w)) ∧
        ∀ w name now val, x.workers w = .detecting name now →
          (ntGet x.store name SIZEOF_SOL_DETECTION now).2 = some val →
            (x.IsDetectionKey name ↔ KindsApart x w)) := by
  constructor
  · intro hx
    exact (kindsApart_invariant.reach hx).2.log
  · intro hx
    have hinv := (entries_invariant _).reach hx
    refine ⟨fun w name now val hw hget => ?_, fun w name now val hw hget => ?_⟩
    · rw [(hinv.cursor_iff hget).1]
      simp only [KindsApart, hw, hget, reduceCtorEq, imp_false]
    · rw [(hinv.cursor_iff hget).2]
      simp only [KindsApart, hw, hget, reduceCtorEq, imp_false]

/-- A collect polls with the record that it finds. -/
theorem latch_looking {x : Entries} {w : Nat} {name : NtName} {now : UInt64} {val : List UInt8}
    (hw : x.workers w = .looking name now)
    (hget : (ntGet x.store name SIZEOF_SOL_CURSOR now).2 = some val)
    (hlen : val.length = SIZEOF_SOL_CURSOR) (async : Bool) (snap : Option (List MtEntry)) :
    (x.latch w async snap).workers w = .polling name val := by
  rw [Entries.latch, hw]
  dsimp only
  cases hout : ntGet x.store name SIZEOF_SOL_CURSOR now with
  | mk s out =>
    rw [hout] at hget
    obtain rfl : out = some val := hget
    simp [Entries.setWorker, hlen]

/-- A collect that finds its entry, and writes it back with no line delivered. -/
def Entries.collect (x : Entries) (w : Nat) (key : List Char) (val : List UInt8) : Entries :=
  let looked := (x.setWorker w (.looking (keyToName key) x.clock)).latch w false none
  (looked.setWorker w (.advancing (keyToName key) looked.clock (collectRecord val ⟨true, none⟩).2
    (collectRecord val ⟨true, none⟩).1)).latch w false none

theorem reach_collect {ok : Entries → Nat → Prop} {x : Entries} (hx : (entrySystem ok).Reach x)
    {w : Nat} {key : List Char} {val : List UInt8} (hidle : x.workers w = .idle)
    (hlook : ok (x.setWorker w (.looking (keyToName key) x.clock)) w)
    (hfound : ((x.setWorker w (.looking (keyToName key) x.clock)).latch w false none).workers w =
      .polling (keyToName key) val)
    (hok : ∀ y name now val answer, y.workers w = .advancing name now val answer → ok y w) :
    (entrySystem ok).Reach (x.collect w key val) := by
  have hlooking := hx.step (.move x w (.looking (keyToName key) x.clock) (by
    rw [hidle]
    exact .collect key))
  have hpolling := hlooking.step (.latch _ w false none hlook)
  have hadvancing := hpolling.step (.move _ w _ (by
    rw [hfound]
    exact .poll _ _ ⟨true, none⟩))
  exact hadvancing.step (.latch _ w false none (hok _ _ _ _ _ (Entries.setWorker_self _ _ _)))

/-- A collect with its own key. -/
theorem entryKinds_kept_firstCommand :
    let x := (Entries.init 0).command 0 1 ⟨0, none, ['D']⟩ false
    let looking := x.setWorker 0 (.looking (keyToName (responseKey 0)) 1)
    KindsKept (x.collect 0 (responseKey 0) (cursorBytes 0 1 ⟨0, none, ['D']⟩)) ∧
      (looking.IsCursorKey (keyToName (responseKey 0)) ↔ KindsApart looking 0) := by
  intro x looking
  have hx : ∀ {ok : Entries → Nat → Prop},
      (∀ y tod now val, y.workers 0 = .storing tod now val → ok y 0) →
      (entrySystem ok).Reach x := fun hok => reach_command (.init ⟨0, rfl⟩) rfl (by decide) hok
  have hget : (ntGet looking.store (keyToName (responseKey 0)) SIZEOF_SOL_CURSOR 1).2 =
      some (cursorBytes 0 1 ⟨0, none, ['D']⟩) := by decide +kernel
  have hfound : (looking.latch 0 false none).workers 0 =
      .polling (keyToName (responseKey 0)) (cursorBytes 0 1 ⟨0, none, ['D']⟩) :=
    latch_looking (Entries.setWorker_self _ _ _) hget
      (length_records 0 1 ⟨0, none, ['D']⟩ ⟨0, 0, ⟨none, 0⟩, []⟩).1 _ _
  refine ⟨(entryKinds_kept _).1 ?_, ((entryKinds_kept looking).2 ?_).1 0 _ 1 _
    (Entries.setWorker_self _ _ _) hget⟩
  · refine reach_collect (hx fun y tod now val hw => ?_) rfl ?_ hfound
      fun y name now val answer hw => ?_
    · simp [KindsApart, hw]
    · rintro ⟨t, ht, -⟩
      cases ht
    · simp [KindsApart, hw]
  · exact (hx fun _ _ _ _ _ => trivial).step (.move x 0 _ (.collect _))

/-- A collect with the key of a detection. -/
theorem entryKinds_mixed :
    ¬ ∀ x, (entrySystem fun _ _ => True).Reach x → KindsKept x := by
  intro h
  let x := firstDetection.collect 0 (detectionKey 0) (detectionBytes ⟨0, 30, ⟨none, 0⟩, ['X']⟩)
  have hx : (entrySystem fun _ _ => True).Reach x := by
    refine reach_collect ?_ rfl trivial ?_ fun _ _ _ _ _ _ => trivial
    · exact reach_armDetection (reach_firstCommand fun _ _ _ _ _ => trivial) rfl trivial
    · -- the record of the detection has the length of a cursor
      exact latch_looking rfl (by decide +kernel) (length_records 0 0 ⟨0, none, []⟩ _).2 _ _
  have hmem : ∃ answer, .collected (detectionName 0) answer ∈ x.log := ⟨_, List.mem_cons_self⟩
  obtain ⟨answer, hmem⟩ := hmem
  exact (h x hx _ hmem).2 ⟨0, List.mem_cons_self, rfl⟩

end Mvsmf
