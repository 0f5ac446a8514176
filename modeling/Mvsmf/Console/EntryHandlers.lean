import Mvsmf.Console.EntryKeys
import Mvsmf.Console.IssueHandler
import Mvsmf.Lib.Monitor

/-!
# The handlers on the store

Here the workers of the store run the handlers themselves, one call at a time; a call of the store
samples the clock and then waits for the latch. What a handler may ask of the store is what a worker
of the store's system may do, so every state that the handlers come to is one of that system.
-/

namespace Mvsmf

open Prog Prog.Monitor ConsProg

/-! ## The endpoints of a key -/

inductive LookupCall
  | consoleAuthorize
  | kvstore
  | ntGet (name : NtName) (max : Nat)
  | collectPoll
  | mttSnap
  | todHi
  | ntSet (name : NtName) (val : List UInt8)

def LookupCall.Ans : LookupCall → Type
  | .consoleAuthorize | .kvstore => Bool
  | .ntGet _ _ => Option (List UInt8)
  | .collectPoll => CollectCall
  | .mttSnap => Option (List MtEntry)
  | .todHi => UInt32
  | .ntSet _ _ => Unit

abbrev LookupProg := Prog LookupCall LookupCall.Ans

namespace LookupProg

def look (c : LookupCall) : LookupProg c.Ans := Prog.ask c

/-- The record of a key, if there is a whole one. -/
def lookup (key : Option (List Char)) (size : Nat) :
    LookupProg (Option (NtName × List UInt8)) := do
  let store : Bool ← look .kvstore
  match key with
  | none => return none
  | some key =>
    if store = false then return none
    else
      let found : Option (List UInt8) ← look (.ntGet (keyToName key) size)
      match found with
      | none => return none
      | some val => return if val.length < size then none else some (keyToName key, val)

/-- The answer, none to a caller who is not permitted. -/
def consoleCollectHandler (key : Option (List Char)) :
    LookupProg (Option (Except ConsoleError (List Char))) := do
  let permitted : Bool ← look .consoleAuthorize
  if permitted = false then return none
  else
    match ← lookup key SIZEOF_SOL_CURSOR with
    | none => return some (.ok [])
    | some (name, val) =>
      let poll : CollectCall ← look .collectPoll
      let r := collectRecord val poll
      look (.ntSet name r.2)
      return some r.1

/-- The clock is read only where the message is not found. -/
def consoleDetectHandler (key : Option (List Char)) :
    LookupProg (Option (Except ConsoleError (DetectStatus × List Char))) := do
  let permitted : Bool ← look .consoleAuthorize
  if permitted = false then return none
  else
    match ← lookup key SIZEOF_SOL_DETECTION with
    | none => return some detectUnknown
    | some (_, val) =>
      let snap : Option (List MtEntry) ← look .mttSnap
      let det := detectionOf val
      if (mttDetectSince snap det.key det.base 200).1 = some 0 then
        let now : UInt32 ← look .todHi
        return some (detectRecord val snap now)
      else return some (detectRecord val snap 0)

end LookupProg

/-! ## What a handler asks of the store -/

/-- A record that a worker has to store, and where the worker is behind that. -/
inductive EntryWorker.Stores : EntryWorker → NtName → List UInt8 → EntryWorker → Prop
  | cursor (tod : UInt64) (cmdlen : UInt8) (cur : SolCursor) :
      Stores (.issued tod) (responseName tod) (cursorBytes tod cmdlen cur) (.arming tod)
  | detection (tod : UInt64) (det : SolDetection) :
      Stores (.arming tod) (detectionName tod) (detectionBytes det) .idle
  | onlyDetection (tod : UInt64) (det : SolDetection) :
      Stores (.issued tod) (detectionName tod) (detectionBytes det) .idle
  | back (name : NtName) (val : List UInt8) (c : CollectCall) :
      Stores (.polling name val) name (collectRecord val c).2 .idle

/-- Where a worker is behind a record of that name. -/
def EntryWorker.behind (name : NtName) : EntryWorker → EntryWorker
  | .issued tod => if name = responseName tod then .arming tod else .idle
  | _ => .idle

theorem EntryWorker.Stores.behind_eq {s s' : EntryWorker} {name : NtName} {val : List UInt8}
    (h : s.Stores name val s') : s.behind name = s' := by
  cases h with
  | cursor tod cmdlen cur => rw [EntryWorker.behind, if_pos rfl]
  | detection tod det => rfl
  | onlyDetection tod det =>
    rw [EntryWorker.behind, if_neg (responseName_ne_detectionName tod tod).symm]
  | back name val c => rfl

/-- Where a worker is behind a lookup. -/
def lookedUp (detecting : Bool) (name : NtName) : Option (List UInt8) → EntryWorker
  | some val =>
    if detecting || decide (val.length < SIZEOF_SOL_CURSOR) then .idle else .polling name val
  | none => .idle

/-- What a command may ask. -/
def issueStore : Monitor ConsCall ConsCall.Ans EntryWorker where
  next
    | _, ⟨.tod64, tod⟩ => .issued tod
    | s, ⟨.ntSet name _, _⟩ => s.behind name
    | s, _ => s
  allow
    | s, .tod64 => s = .idle
    | s, .ntSet name val => ∃ s', s.Stores name val s'
    | _, _ => True

/-- What a lookup may ask. -/
def lookupStore (detecting : Bool) : Monitor LookupCall LookupCall.Ans EntryWorker where
  next
    | _, ⟨.ntGet name _, found⟩ => lookedUp detecting name found
    | s, ⟨.ntSet name _, _⟩ => s.behind name
    | s, _ => s
  allow
    | s, .ntGet name max => s = .idle ∧ (∃ key, name = keyToName key) ∧
        max = if detecting then SIZEOF_SOL_DETECTION else SIZEOF_SOL_CURSOR
    | s, .ntSet name val => ∃ s', s.Stores name val s'
    | _, _ => True

/-- A command may end here. -/
def EntryWorker.Ends (s : EntryWorker) : Prop :=
  s = .idle ∨ ∃ tod, s = .issued tod ∨ s = .arming tod

/-- The clock is not read for a key, and nothing is stored. -/
def ConsCall.elsewhere : ConsCall → Bool
  | .tod64 | .ntSet _ _ => false
  | _ => true

section Issue

variable {s : EntryWorker} {f : IssueFields}

theorem keeps_cons {c : ConsCall} (hc : c.elsewhere = true) :
    issueStore.Keeps (· = s) (cons c) := by
  rintro _ rfl
  cases c
  case tod64 => cases hc
  case ntSet => cases hc
  all_goals exact ⟨trivial, fun _ => rfl⟩

theorem issueStore_frames : Frames issueStore (· = s) := by
  intro c hc
  refine keeps_cons ?_
  cases c
  case tod64 => cases hc
  case ntSet => cases hc
  all_goals rfl

theorem keeps_armDetection : issueStore.Keeps (· = s) (armDetection f) := by
  rw [armDetection]
  refine .ite (.ret _) ((keeps_cons rfl).bind fun snap => ?_)
  split
  · exact .ret _
  · exact .ret _

/-- The cursor is stored, or refused its place. -/
theorem stores_cursor {tod : UInt64} (cur : SolCursor) (hs : s = .issued tod) :
    issueStore.Obeys s (storeCursor f tod cur) fun s _ => s = .issued tod ∨ s = .arming tod := by
  refine obeys_cons trivial fun store => ?_
  cases store with
  | false => exact Or.inl hs
  | true =>
    have hstores : s.Stores (responseName tod)
        (cursorBytes tod (UInt8.ofNat f.cmd.length) cur) (.arming tod) := by
      rw [hs]
      exact .cursor tod _ cur
    have hbehind := hstores.behind_eq
    exact ⟨⟨_, hstores⟩, fun _ => Or.inr hbehind⟩

theorem stores_detection {req : ConsRequest} (base : MttAnchor) {tod : UInt64}
    (hs : s = .issued tod ∨ s = .arming tod) :
    issueStore.Obeys s (storeDetection req f base tod) fun s _ => s.Ends := by
  refine obeys_cons trivial fun store => ?_
  cases store with
  | false => exact Or.inr ⟨tod, hs⟩
  | true =>
    refine obeys_cons trivial fun now => ?_
    have hstores : ∀ det, s.Stores (detectionName tod) (detectionBytes det) .idle := by
      intro det
      rcases hs with rfl | rfl
      · exact .onlyDetection tod det
      · exact .detection tod det
    exact ⟨⟨_, hstores _⟩, fun _ => Or.inl (hstores ⟨now, UInt32.ofNat f.detectSecs, base,
      f.unsolkey.map Char.toUpper⟩).behind_eq⟩

theorem stores_detect {req : ConsRequest} (base : Option MttAnchor) {tod : UInt64} (polls : Nat)
    (hs : s = .issued tod ∨ s = .arming tod) :
    issueStore.Obeys s (detect req f base tod polls) fun s _ => s.Ends := by
  have hends : s.Ends := Or.inr ⟨tod, hs⟩
  cases base with
  | none => exact hends
  | some base =>
    rw [detect]
    split
    · refine obeys_cons trivial fun start => obeys_bind.mpr ?_
      have hloop := issueStore_frames.keeps_detectLoop (keeps_cons rfl) (keeps_cons rfl)
        (f.unsolkey.map Char.toUpper) base f.timeout start polls s rfl
      exact hloop.imp fun _ _ h => h ▸ hends
    · exact obeys_bind.mpr ((stores_detection base hs).imp fun _ _ h => h)

theorem ends_sendQuit (hs : s.Ends) (locked : Bool) (reply : ConsReply) :
    issueStore.Obeys s (sendQuit locked reply) fun s _ => s.Ends :=
  (issueStore_frames.keeps_sendQuit locked reply s rfl).imp fun _ _ h => h ▸ hs

theorem stores_answerIssued {req : ConsRequest} (base : Option MttAnchor) (tod : UInt64)
    (resp : List Char) (cur : SolCursor) (polls : Nat) :
    issueStore.Obeys (.issued tod) (answerIssued req f base tod resp cur polls)
      fun s _ => s.Ends := by
  refine obeys_bind.mpr ((stores_cursor cur rfl).imp fun s _ hs => ?_)
  refine obeys_bind.mpr ((stores_detect base polls hs).imp ?_)
  rintro s' (_ | (e | detection)) hends
  · exact hends
  · exact ends_sendQuit hends false _
  · exact ends_sendQuit hends false _

theorem stores_afterIssue {req : ConsRequest} (locked : Bool) (polls : Nat) :
    issueStore.Obeys .idle (afterIssue req f locked polls) fun s _ => s.Ends := by
  refine obeys_bind.mpr ((keeps_armDetection .idle rfl).imp ?_)
  rintro s (e | base) rfl
  · exact ends_sendQuit (Or.inl rfl) locked _
  · refine obeys_cons rfl fun tod => obeys_cons trivial fun resp => ?_
    have hends : (EntryWorker.issued tod).Ends := Or.inr ⟨tod, Or.inl rfl⟩
    cases resp with
    | false => exact ends_sendQuit hends locked _
    | true =>
      refine obeys_cons trivial fun turns => ?_
      cases captureInto f.cmdUpper RESP_CAP [] none turns with
      | none => exact hends
      | some r =>
        refine obeys_bind.mpr ((issueStore_frames.keeps_release locked _ rfl).imp ?_)
        rintro s _ rfl
        split
        · exact ends_sendQuit hends false _
        · exact ends_sendQuit hends false _
        · exact stores_answerIssued base tod _ _ polls

theorem stores_issueLocked (req : ConsRequest) (polls : Nat) :
    issueStore.Obeys .idle (issueLocked req f polls) fun s _ => s.Ends := by
  refine obeys_bind.mpr ((issueStore_frames.keeps_lockUnlessQuiescing req.anchor _ rfl).imp ?_)
  rintro s (locked | _ | _) rfl
  · exact obeys_cons trivial fun _ => stores_afterIssue locked polls
  · exact ends_sendQuit (Or.inl rfl) false _
  · exact ends_sendQuit (Or.inl rfl) false _

/-- **A command on the store.** It takes a reading of the clock, then stores its cursor at most
once, and a detection at most once behind that. -/
theorem stores_consoleIssueHandler (req : ConsRequest) (polls : Nat) :
    issueStore.Obeys .idle (consoleIssueHandler req polls) fun s _ => s.Ends := by
  have hidle : EntryWorker.idle.Ends := Or.inl rfl
  refine obeys_cons trivial fun permitted => ?_
  cases permitted with
  | false => exact hidle
  | true =>
    rw [if_neg nofun]
    split
    · exact ends_sendQuit hidle false _
    · refine obeys_cons trivial fun body => ?_
      cases body with
      | error rc => exact ends_sendQuit hidle false _
      | ok body =>
        dsimp only
        split
        · exact ends_sendQuit hidle false _
        · exact stores_issueLocked req polls

end Issue

section Lookup

open LookupProg

variable {detecting : Bool}

theorem looks_call {s : EntryWorker} {α : Type} {c : LookupCall} {k : c.Ans → LookupProg α}
    {Q : EntryWorker → α → Prop} (hallow : (lookupStore detecting).allow s c)
    (hk : ∀ a, (lookupStore detecting).Obeys ((lookupStore detecting).next s ⟨c, a⟩) (k a) Q) :
    (lookupStore detecting).Obeys s (look c >>= k) Q := ⟨hallow, hk⟩

/-- Where a worker is behind a lookup that gave `r`. -/
def afterLookup (detecting : Bool) : Option (NtName × List UInt8) → EntryWorker
  | some (name, val) => if detecting then .idle else .polling name val
  | none => .idle

/-- The record comes from the store under a name that was asked for. -/
theorem looks_lookup (detecting : Bool) (key : Option (List Char)) :
    (lookupStore detecting).Obeys .idle
      (lookup key (if detecting then SIZEOF_SOL_DETECTION else SIZEOF_SOL_CURSOR)) fun s r =>
        s = afterLookup detecting r := by
  refine looks_call trivial fun store => ?_
  cases key with
  | none => exact rfl
  | some key =>
    cases store with
    | false => exact rfl
    | true =>
      refine looks_call ⟨rfl, ⟨key, rfl⟩, rfl⟩ fun found => ?_
      cases found with
      | none => exact rfl
      | some val =>
        change lookedUp detecting (keyToName key) (some val) = afterLookup detecting
          (if val.length < (if detecting then SIZEOF_SOL_DETECTION else SIZEOF_SOL_CURSOR) then none
          else some (keyToName key, val))
        cases detecting with
        | true =>
          rw [lookedUp, Bool.true_or, if_pos rfl, if_pos rfl]
          split <;> rfl
        | false =>
          rw [lookedUp, Bool.false_or, if_neg Bool.false_ne_true]
          by_cases hlen : val.length < SIZEOF_SOL_CURSOR
          · rw [if_pos (decide_eq_true hlen), if_pos hlen, afterLookup]
          · rw [if_neg (by simp [hlen]), if_neg hlen, afterLookup, if_neg Bool.false_ne_true]

/-- **A collect on the store.** It writes the record back that it has found. -/
theorem stores_consoleCollectHandler (key : Option (List Char)) :
    (lookupStore false).Obeys .idle (consoleCollectHandler key) fun s _ => s = .idle := by
  refine looks_call trivial fun permitted => ?_
  cases permitted with
  | false => exact rfl
  | true =>
    rw [if_neg nofun]
    refine obeys_bind.mpr ((looks_lookup false key).imp ?_)
    rintro _ (_ | ⟨name, val⟩) rfl
    · exact rfl
    · refine looks_call trivial fun poll => ?_
      have hstores := EntryWorker.Stores.back name val poll
      exact ⟨⟨_, hstores⟩, fun _ => hstores.behind_eq⟩

/-- **A detection on the store.** It is only read. -/
theorem stores_consoleDetectHandler (key : Option (List Char)) :
    (lookupStore true).Obeys .idle (consoleDetectHandler key) fun s _ => s = .idle := by
  refine looks_call trivial fun permitted => ?_
  cases permitted with
  | false => exact rfl
  | true =>
    rw [if_neg nofun]
    refine obeys_bind.mpr ((looks_lookup true key).imp ?_)
    rintro _ (_ | ⟨name, val⟩) rfl
    · exact rfl
    · refine looks_call trivial fun snap => ?_
      dsimp only
      split
      · exact looks_call trivial fun _ => rfl
      · exact rfl

end Lookup

/-! ## The handlers at work -/

/-- Where a worker is in a handler: in front of its next call, or at the latch with the clock that
it sampled. -/
inductive HandlerPlace : Type 1
  | idle
  | issuing (rest : ConsProg (Option ConsReply))
  | setting (name : NtName) (val : List UInt8) (now : UInt64) (rest : ConsProg (Option ConsReply))
  | looking (detecting : Bool) {ρ : Type} (rest : LookupProg ρ)
  | getting (detecting : Bool) {ρ : Type} (name : NtName) (max : Nat) (now : UInt64)
    (k : Option (List UInt8) → LookupProg ρ)
  | rewriting (detecting : Bool) {ρ : Type} (name : NtName) (val : List UInt8) (now : UInt64)
    (rest : LookupProg ρ)

structure HandlerStore where
  store : NtStore
  clock : UInt64
  place : Nat → HandlerPlace

def HandlerStore.init (t : UInt64) : HandlerStore := ⟨ntStoreInit, t, fun _ => .idle⟩

def HandlerStore.go (x : HandlerStore) (w : Nat) (p : HandlerPlace) : HandlerStore :=
  { x with place := Function.update x.place w p }

/-- The store is not called. -/
def LookupCall.elsewhere : LookupCall → Bool
  | .ntGet _ _ | .ntSet _ _ => false
  | _ => true

/-- What a worker does without the latch. -/
inductive HandlerPlace.Goes (clock : UInt64) : HandlerPlace → HandlerPlace → Prop
  | issue (req : ConsRequest) (polls : Nat) :
      Goes clock .idle (.issuing (consoleIssueHandler req polls))
  | collect (key : Option (List Char)) :
      Goes clock .idle (.looking false (LookupProg.consoleCollectHandler key))
  | detect (key : Option (List Char)) :
      Goes clock .idle (.looking true (LookupProg.consoleDetectHandler key))
  | issueCall {c : ConsCall} {k : c.Ans → ConsProg (Option ConsReply)} (a : c.Ans) :
      c.elsewhere = true → Goes clock (.issuing (.call c k)) (.issuing (k a))
  | set {name : NtName} {val : List UInt8} {k : Unit → ConsProg (Option ConsReply)} :
      Goes clock (.issuing (.call (.ntSet name val) k)) (.setting name val clock (k ()))
  | issueRet {r : Option ConsReply} : Goes clock (.issuing (.ret r)) .idle
  | lookCall {detecting : Bool} {ρ : Type} {c : LookupCall} {k : c.Ans → LookupProg ρ} (a : c.Ans) :
      c.elsewhere = true →
      Goes clock (.looking detecting (.call c k)) (.looking detecting (k a))
  | get {detecting : Bool} {ρ : Type} {name : NtName} {max : Nat}
      {k : Option (List UInt8) → LookupProg ρ} :
      Goes clock (.looking detecting (.call (.ntGet name max) k))
        (.getting detecting name max clock k)
  | rewrite {detecting : Bool} {ρ : Type} {name : NtName} {val : List UInt8}
      {k : Unit → LookupProg ρ} :
      Goes clock (.looking detecting (.call (.ntSet name val) k))
        (.rewriting detecting name val clock (k ()))
  | lookRet {detecting : Bool} {ρ : Type} {r : ρ} :
      Goes clock (.looking detecting (.ret r : LookupProg ρ)) .idle

/-- A worker that holds the latch. -/
def HandlerStore.latch (x : HandlerStore) (w : Nat) : HandlerStore :=
  match x.place w with
  | .setting name val now rest =>
    { x.go w (.issuing rest) with store := ntSet x.store name val now }
  | .getting detecting name max now k =>
    { x.go w (.looking detecting (k (ntGet x.store name max now).2)) with
      store := (ntGet x.store name max now).1 }
  | .rewriting detecting name val now rest =>
    { x.go w (.looking detecting rest) with store := ntSet x.store name val now }
  | _ => x

inductive HandlerStep : HandlerStore → HandlerStore → Prop
  | tick (x : HandlerStore) (t : UInt64) : x.clock ≤ t → HandlerStep x { x with clock := t }
  | key (x : HandlerStore) (w : Nat) (t : UInt64) {k : UInt64 → ConsProg (Option ConsReply)} :
      x.place w = .issuing (.call .tod64 k) → x.clock < t →
      HandlerStep x { x.go w (.issuing (k x.clock)) with clock := t }
  | go (x : HandlerStore) (w : Nat) {p : HandlerPlace} :
      (x.place w).Goes x.clock p → HandlerStep x (x.go w p)
  | latch (x : HandlerStore) (w : Nat) : HandlerStep x (x.latch w)

def handlerSystem : System HandlerStore where
  init x := ∃ t, x = HandlerStore.init t
  step := HandlerStep

/-! ## The worker that goes with a handler -/

/-- It waits for the latch to store a record, and is somewhere behind that. -/
inductive EntryWorker.Waits : EntryWorker → NtName → List UInt8 → UInt64 → EntryWorker → Prop
  | cursor (tod now : UInt64) (val : List UInt8) :
      Waits (.storing tod now val) (responseName tod) val now (.arming tod)
  | detection (tod now : UInt64) (val : List UInt8) :
      Waits (.storingDetection tod now val) (detectionName tod) val now .idle
  | back (name : NtName) (now : UInt64) (val : List UInt8)
      (answer : Except ConsoleError (List Char)) :
      Waits (.advancing name now val answer) name val now .idle

def HandlerPlace.Fits (s : EntryWorker) : HandlerPlace → Prop
  | .idle => s = .idle
  | .issuing rest => issueStore.Obeys s rest fun s _ => s.Ends
  | .setting name val now rest =>
    ∃ s', s.Waits name val now s' ∧ issueStore.Obeys s' rest fun s _ => s.Ends
  | .looking detecting rest => (lookupStore detecting).Obeys s rest fun s _ => s = .idle
  | .getting detecting name max now k =>
    s = (if detecting then .detecting name now else .looking name now) ∧
      max = (if detecting then SIZEOF_SOL_DETECTION else SIZEOF_SOL_CURSOR) ∧
      ∀ found, (lookupStore detecting).Obeys (lookedUp detecting name found) (k found)
        fun s _ => s = .idle
  | .rewriting detecting name val now rest =>
    ∃ s', s.Waits name val now s' ∧ (lookupStore detecting).Obeys s' rest fun s _ => s = .idle

/-- The two stores are one, and each handler is where its worker is. -/
structure HandlerStore.Shown (x : HandlerStore) (y : Entries) : Prop where
  store : y.store = x.store
  clock : y.clock = x.clock
  fits : ∀ w, (x.place w).Fits (y.workers w)

theorem EntryWorker.Stores.waits {s s' : EntryWorker} {name : NtName} {val : List UInt8}
    (h : s.Stores name val s') (clock : UInt64) :
    ∃ s₁, Relation.ReflTransGen (EntryMove clock) s s₁ ∧ s₁.Waits name val clock s' := by
  cases h with
  | cursor tod cmdlen cur => exact ⟨_, .single (.store tod cmdlen cur), .cursor _ _ _⟩
  | detection tod det => exact ⟨_, .single (.arm tod det), .detection _ _ _⟩
  | onlyDetection tod det =>
    exact ⟨_, (Relation.ReflTransGen.single (.refuse tod)).tail (.arm tod det), .detection _ _ _⟩
  | back name val c => exact ⟨_, .single (.poll name val c), .back _ _ _ _⟩

theorem EntryWorker.Ends.moves {s : EntryWorker} (h : s.Ends) (clock : UInt64) :
    Relation.ReflTransGen (EntryMove clock) s .idle := by
  rcases h with rfl | ⟨tod, rfl | rfl⟩
  · exact .refl
  · exact .single (.abandon tod)
  · exact .single (.disarm tod)

/-- What a handler does without the latch, its worker does. -/
theorem HandlerPlace.Goes.moves {clock : UInt64} {p p' : HandlerPlace} {s : EntryWorker}
    (h : p.Goes clock p') (hs : p.Fits s) :
    ∃ s', Relation.ReflTransGen (EntryMove clock) s s' ∧ p'.Fits s' := by
  cases h with
  | issue req polls =>
    obtain rfl : s = .idle := hs
    exact ⟨_, .refl, stores_consoleIssueHandler req polls⟩
  | collect key =>
    obtain rfl : s = .idle := hs
    exact ⟨_, .refl, stores_consoleCollectHandler key⟩
  | detect key =>
    obtain rfl : s = .idle := hs
    exact ⟨_, .refl, stores_consoleDetectHandler key⟩
  | @issueCall c k a hc =>
    refine ⟨s, .refl, ?_⟩
    have hnext := hs.2 a
    cases c
    case tod64 => cases hc
    case ntSet => cases hc
    all_goals exact hnext
  | set =>
    obtain ⟨⟨s', hstores⟩, hrest⟩ := hs
    obtain ⟨s₁, hmoves, hwaits⟩ := hstores.waits clock
    refine ⟨s₁, hmoves, s', hwaits, ?_⟩
    have hnext := hrest ()
    rwa [← hstores.behind_eq]
  | issueRet => exact ⟨_, EntryWorker.Ends.moves hs clock, rfl⟩
  | @lookCall detecting ρ c k a hc =>
    refine ⟨s, .refl, ?_⟩
    have hnext := hs.2 a
    cases c
    case ntGet => cases hc
    case ntSet => cases hc
    all_goals exact hnext
  | @get detecting ρ name max k =>
    obtain ⟨⟨rfl, ⟨key, rfl⟩, hmax⟩, hrest⟩ := hs
    cases detecting with
    | true => exact ⟨_, .single (.detect key), rfl, hmax, hrest⟩
    | false => exact ⟨_, .single (.collect key), rfl, hmax, hrest⟩
  | rewrite =>
    obtain ⟨⟨s', hstores⟩, hrest⟩ := hs
    obtain ⟨s₁, hmoves, hwaits⟩ := hstores.waits clock
    refine ⟨s₁, hmoves, s', hwaits, ?_⟩
    have hnext := hrest ()
    rwa [← hstores.behind_eq]
  | lookRet => exact ⟨s, .refl, hs⟩

/-! ## Every run of the handlers is one of the store's system -/

section

variable {x : HandlerStore} {y : Entries}

theorem Entries.reach_moves {ok : Entries → Nat → Prop} (hy : (entrySystem ok).Reach y) {w : Nat}
    {s : EntryWorker} (h : Relation.ReflTransGen (EntryMove y.clock) (y.workers w) s) :
    (entrySystem ok).Reach (y.setWorker w s) := by
  induction h with
  | refl =>
    have hself : y.setWorker w (y.workers w) = y := by
      rw [Entries.setWorker, Function.update_eq_self]
    rwa [hself]
  | @tail s s' _ hmove ih =>
    have htwice : (y.setWorker w s).setWorker w s' = y.setWorker w s' := by
      simp only [Entries.setWorker, Function.update_idem]
    have hstep := ih.step (.move (y.setWorker w s) w s' (by rwa [Entries.setWorker_self]))
    rwa [htwice] at hstep

/-- The store behind a record that a worker waited to store. -/
theorem EntryWorker.Waits.latch {w : Nat} {name : NtName} {val : List UInt8} {now : UInt64}
    {s' : EntryWorker} (h : (y.workers w).Waits name val now s') :
    (y.latch w true none).store = ntSet y.store name val now ∧
      (y.latch w true none).clock = y.clock ∧
      (y.latch w true none).workers = Function.update y.workers w s' := by
  generalize hw : y.workers w = s at h
  cases h with
  | cursor tod now val => simp [Entries.latch, hw, Entries.storeEntry, Entries.setWorker]
  | detection tod now val => simp [Entries.latch, hw, Entries.storeEntry, Entries.setWorker]
  | back name now val answer => simp [Entries.latch, hw, Entries.setWorker]

/-- A get that finds nothing touches nothing. -/
theorem ntGet_none {s : NtStore} {name : NtName} {max : Nat} {now : UInt64}
    (h : (ntGet s name max now).2 = none) : (ntGet s name max now).1 = s := by
  rw [ntGet] at h ⊢
  cases hfirst : Slots.first (·.answers name now) s with
  | none => rfl
  | some i => simp [hfirst] at h

/-- The store behind a lookup, and what its worker does with the record. -/
theorem Entries.latch_lookup {w : Nat} {detecting : Bool} {name : NtName} {now : UInt64}
    (hw : y.workers w = if detecting then .detecting name now else .looking name now) :
    let size := if detecting then SIZEOF_SOL_DETECTION else SIZEOF_SOL_CURSOR
    (y.latch w true none).store = (ntGet y.store name size now).1 ∧
      (y.latch w true none).clock = y.clock ∧
      (y.latch w true none).workers = Function.update y.workers w
        (lookedUp detecting name (ntGet y.store name size now).2) := by
  intro size
  cases detecting with
  | true =>
    rw [Entries.latch, show y.workers w = .detecting name now from hw]
    cases hget : ntGet y.store name SIZEOF_SOL_DETECTION now with
    | mk s found =>
      cases found with
      | none =>
        obtain rfl : s = y.store := by simpa [hget] using ntGet_none (congrArg Prod.snd hget)
        simp [size, hget, lookedUp, Entries.setWorker]
      | some val => simp [size, hget, lookedUp, Entries.setWorker]
  | false =>
    rw [Entries.latch, show y.workers w = .looking name now from hw]
    cases hget : ntGet y.store name SIZEOF_SOL_CURSOR now with
    | mk s found =>
      cases found with
      | none =>
        obtain rfl : s = y.store := by simpa [hget] using ntGet_none (congrArg Prod.snd hget)
        simp [size, hget, lookedUp, Entries.setWorker]
      | some val => simp [size, hget, lookedUp, Entries.setWorker]

theorem HandlerStore.Shown.update (h : x.Shown y) {w : Nat} {p : HandlerPlace} {s : EntryWorker}
    (hs : p.Fits s) {x' : HandlerStore} {y' : Entries} (hstore : y'.store = x'.store)
    (hclock : y'.clock = x'.clock) (hplace : x'.place = Function.update x.place w p)
    (hworkers : y'.workers = Function.update y.workers w s) : x'.Shown y' := by
  refine ⟨hstore, hclock, fun v => ?_⟩
  rw [hplace, hworkers]
  by_cases hv : v = w
  · subst hv
    rwa [Function.update_self, Function.update_self]
  · rw [Function.update_of_ne hv, Function.update_of_ne hv]
    exact h.fits v

end

theorem HandlerStep.shown {x x' : HandlerStore} {y : Entries} (h : x.Shown y)
    (hy : (entrySystem fun _ _ => True).Reach y) (hstep : HandlerStep x x') :
    ∃ y', (entrySystem fun _ _ => True).Reach y' ∧ x'.Shown y' := by
  cases hstep with
  | tick t ht =>
    exact ⟨_, hy.step (.tick y t (h.clock ▸ ht)), h.store, rfl, h.fits⟩
  | key w t hplace ht =>
    have hfits := h.fits w
    rw [hplace] at hfits
    obtain ⟨hidle, hrest⟩ := hfits
    refine ⟨_, hy.step (.issue y w t hidle (h.clock ▸ ht)),
      h.update (w := w) (s := .issued y.clock) (p := .issuing _) (hrest y.clock) h.store rfl ?_ rfl⟩
    rw [h.clock]
    rfl
  | go w hgoes =>
    obtain ⟨s, hmoves, hfits⟩ := hgoes.moves (h.fits w)
    rw [← h.clock] at hmoves
    exact ⟨_, Entries.reach_moves hy hmoves, h.update hfits h.store h.clock rfl rfl⟩
  | latch w =>
    have hlatch := hy.step (.latch y w true none trivial)
    have hfits := h.fits w
    rw [HandlerStore.latch]
    cases hplace : x.place w with
    | setting name val now rest =>
      rw [hplace] at hfits
      obtain ⟨s', hwaits, hrest⟩ := hfits
      obtain ⟨hstore, hclock, hworkers⟩ := hwaits.latch
      exact ⟨_, hlatch, h.update (p := .issuing rest) hrest (by rw [hstore, h.store])
        (hclock.trans h.clock) rfl hworkers⟩
    | rewriting detecting name val now rest =>
      rw [hplace] at hfits
      obtain ⟨s', hwaits, hrest⟩ := hfits
      obtain ⟨hstore, hclock, hworkers⟩ := hwaits.latch
      exact ⟨_, hlatch, h.update (p := .looking detecting rest) hrest (by rw [hstore, h.store])
        (hclock.trans h.clock) rfl hworkers⟩
    | getting detecting name max now k =>
      rw [hplace] at hfits
      obtain ⟨hw, rfl, hrest⟩ := hfits
      obtain ⟨hstore, hclock, hworkers⟩ := Entries.latch_lookup hw
      rw [h.store] at hstore hworkers
      exact ⟨_, hlatch, h.update (p := .looking detecting _) (hrest _) hstore
        (hclock.trans h.clock) rfl hworkers⟩
    | idle => exact ⟨y, hy, h⟩
    | issuing rest => exact ⟨y, hy, h⟩
    | looking detecting rest => exact ⟨y, hy, h⟩

/-- **The handlers keep to the store's system.** In every run of any number of handlers the store
and the clock are those of a run of the workers, and each handler is where its worker is. -/
theorem handlers_shown {x : HandlerStore} (hx : handlerSystem.Reach x) :
    ∃ y, (entrySystem fun _ _ => True).Reach y ∧ x.Shown y := by
  induction hx with
  | init hinit =>
    obtain ⟨t, rfl⟩ := hinit
    exact ⟨_, .init ⟨t, rfl⟩, rfl, rfl, fun _ => rfl⟩
  | step _ hstep ih =>
    obtain ⟨y, hy, h⟩ := ih
    exact hstep.shown h hy

/-- No two entries that the handlers store have one key. -/
theorem handlers_unique {x : HandlerStore} (hx : handlerSystem.Reach x) : NtUnique x.store := by
  obtain ⟨y, hy, h⟩ := handlers_shown hx
  rw [← h.store]
  exact ((entries_invariant _).reach hy).unique

end Mvsmf
