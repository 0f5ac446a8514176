import Mvsmf.Console.IssueHandler
import Mvsmf.Lib.Monitor
import Mathlib

/-!
# What an answer says of its command

The reason code of a console error is advice to an operator: a display may be tried again, a start or
a vary may not if it was issued. Along every run of the handler a watch goes that has the lock and
the command in sight, and the answer agrees with it.
-/

namespace Mvsmf

open Prog Prog.Monitor ConsProg

/-- The answer says that the command was issued: the codes 8/14 and 8/15, and every 200. -/
def ConsReply.commandIssued : ConsReply → Bool
  | .refused => false
  | .error e => e.retcode == 8 && (e.reasonCode == 14 || e.reasonCode == 15)
  | .issued _ => true

/-- A capture with these turns ends. -/
def captureEnds (cmdUpper : List Char) (turns : List CapturePoll) : Bool :=
  (captureInto cmdUpper RESP_CAP [] none turns).isSome

/-- Whether the caller is permitted, the body that was read, whether the server was seen quiescing,
whether the session holds the lock, whether SVC 34 was issued, whether its capture is still to end,
whether the turns of the capture did not end it, and the reply that was sent. -/
structure IssueWatch where
  permitted : Bool
  body : Option (List Char)
  quiesced : Bool
  held : Bool
  issued : Bool
  capturing : Bool
  endless : Bool
  replied : Option ConsReply

namespace IssueWatch

def start : IssueWatch := ⟨false, none, false, false, false, false, false, none⟩

def next (w : IssueWatch) : ConsEvent → IssueWatch
  | ⟨.consoleAuthorize, permitted⟩ => { w with permitted := permitted }
  | ⟨.readRequestContent, body⟩ => { w with body := Except.toOption body }
  | ⟨.serverQuiescing, quiescing⟩ => { w with quiesced := w.quiesced || quiescing }
  | ⟨.trylock, taken⟩ => { w with held := taken }
  | ⟨.unlock, _⟩ => { w with held := false }
  | ⟨.issueCommand _, _⟩ => { w with issued := true, capturing := true }
  | ⟨.capturePolls cmdUpper, turns⟩ =>
    { w with capturing := false, endless := !captureEnds cmdUpper turns }
  | ⟨.reply r, _⟩ => { w with capturing := false, replied := some r }
  | _ => w

/-- The errors that are sent in front of the release at `quit`. -/
def lockedErrors : List ConsoleError := [notArmed, noResponse]

/-- What the handler may do. A reply says whether the command was issued, and goes out under the lock
only if the capture could not be begun. -/
def Allows (req : ConsRequest) (w : IssueWatch) : ConsCall → Prop
  | .consoleAuthorize => w = start
  | .readRequestContent => w.permitted = true ∧ w.issued = false
  | .serverQuiescing | .consPollNap => w.permitted = true
  | .trylock => w.permitted = true ∧ req.anchor = true ∧ w.held = false ∧ w.issued = false
  | .issueCommand text => w.permitted = true ∧ w.issued = false ∧ w.quiesced = false ∧
    w.replied = none ∧ (req.anchor = true → w.held = true) ∧
    ∃ body f, w.body = some body ∧ issueFields body = .ok f ∧ text = issueText f.cmdUpper
  | .capturePolls _ => w.permitted = true ∧ w.issued = true ∧ (req.anchor = true → w.held = true)
  | .unlock => w.held = true ∧ w.issued = true ∧ w.capturing = false
  | .kvstore | .ntSet _ _ => w.permitted = true ∧ w.issued = true ∧ w.held = false
  | .mttSnap | .tod64 | .todHi | .malloc _ => w.permitted = true ∧ w.issued = true
  | .reply r => w.replied = none ∧ r.commandIssued = w.issued ∧
    (w.held = true → ∃ e ∈ lockedErrors, r = .error e)

/-- The command is issued, the session holds the lock or not, its capture is still to end or not, and
no reply is sent. -/
structure Past (w : IssueWatch) (locked capturing : Bool) : Prop where
  permitted : w.permitted = true
  issued : w.issued = true
  held : w.held = locked
  capturing : w.capturing = capturing
  replied : w.replied = none

end IssueWatch

/-- Behind the handler, or where its turns end: in a capture that does not end, or without the
lock. -/
structure Ended (w : IssueWatch) (r : Option ConsReply) : Prop where
  reply : ∀ reply ∈ r, w.held = false ∧ reply.commandIssued = w.issued ∧
    (reply = .refused ∧ w.replied = none ∨ w.replied = some reply)
  open_ : r = none → w.issued = true ∧ (w.endless = false → w.held = false)

section
variable (req : ConsRequest)

def issueGuard : Monitor ConsCall ConsCall.Ans IssueWatch where
  next := IssueWatch.next
  allow w c := w.Allows req c

variable {req} {w : IssueWatch} {f : IssueFields} {locked : Bool}

/-- A reply, with what is then released. -/
theorem obeys_sendQuit {reply : ConsReply} (hheld : w.held = locked) (hnone : w.replied = none)
    (hissued : reply.commandIssued = w.issued)
    (hlocked : locked = true → w.issued = true ∧ ∃ e ∈ IssueWatch.lockedErrors, reply = .error e) :
    (issueGuard req).Obeys w (sendQuit locked reply) Ended := by
  refine obeys_cons ⟨hnone, hissued, fun h => (hlocked (hheld.symm.trans h)).2⟩ fun _ => ?_
  cases locked with
  | false =>
    refine ⟨?_, nofun⟩
    rintro _ ⟨⟩
    exact ⟨hheld, hissued, Or.inr rfl⟩
  | true =>
    refine ⟨⟨hheld, (hlocked rfl).1, rfl⟩, fun _ => ⟨?_, nofun⟩⟩
    rintro _ ⟨⟩
    exact ⟨rfl, hissued, Or.inr rfl⟩

/-- Behind the capture the lock is free. -/
theorem obeys_answer (h : w.Past false false) {reply : ConsReply}
    (hreply : reply.commandIssued = true) :
    (issueGuard req).Obeys w (sendQuit false reply) Ended :=
  obeys_sendQuit h.held h.replied (hreply.trans h.issued.symm) nofun

/-- An error of the capture's preparation goes out under the lock. -/
theorem obeys_lockedError {capturing : Bool} (h : w.Past locked capturing) {e : ConsoleError}
    (he : e ∈ IssueWatch.lockedErrors) :
    (issueGuard req).Obeys w (sendQuit locked (.error e)) Ended := by
  have hissued : (ConsReply.error e).commandIssued = true := by
    rw [IssueWatch.lockedErrors, List.mem_cons, List.mem_singleton] at he
    rcases he with rfl | rfl <;> rfl
  exact obeys_sendQuit h.held h.replied (hissued.trans h.issued.symm) fun _ =>
    ⟨h.issued, e, he, rfl⟩

/-- The wait for a message changes nothing, and its errors say that the command was issued. -/
theorem obeys_detectLoop (unsolUpper : List Char) (base : MttAnchor) (timeout : Nat)
    (start : UInt32) (polls : Nat) (h : w.Past false false) :
    (issueGuard req).Obeys w (detectLoop unsolUpper base timeout start polls) fun w' r =>
      w'.Past false false ∧ ∀ e, r = some (.error e) → (ConsReply.error e).commandIssued = true := by
  induction polls generalizing w with
  | zero => exact ⟨h, fun _ => nofun⟩
  | succ polls ih =>
    have hw : ∀ q, ({ w with quiesced := q } : IssueWatch).Past false false := fun q =>
      ⟨h.permitted, h.issued, h.held, h.capturing, h.replied⟩
    refine obeys_cons h.permitted fun quiescing => ?_
    cases quiescing with
    | true => exact ⟨hw _, by rintro _ ⟨⟩; rfl⟩
    | false =>
      refine obeys_cons ⟨h.permitted, h.issued⟩ fun snap => ?_
      dsimp only
      split
      · exact ⟨hw _, fun _ => nofun⟩
      · refine obeys_cons ⟨h.permitted, h.issued⟩ fun now => ?_
        split
        · split
          · exact ⟨hw _, by rintro _ ⟨⟩; rfl⟩
          · exact ⟨hw _, fun _ => nofun⟩
        · exact obeys_cons h.permitted fun _ => ih (hw _)

theorem obeys_storeDetection (base : MttAnchor) (tod : UInt64) (h : w.Past false false) :
    (issueGuard req).Obeys w (storeDetection req f base tod) fun w' _ => w'.Past false false := by
  refine obeys_cons ⟨h.permitted, h.issued, h.held⟩ fun store => ?_
  cases store with
  | false => exact h
  | true =>
    refine obeys_cons ⟨h.permitted, h.issued⟩ fun now => ?_
    exact obeys_cons ⟨h.permitted, h.issued, h.held⟩ fun _ => h

theorem obeys_detect (base : Option MttAnchor) (tod : UInt64) (polls : Nat) (h : w.Past false false) :
    (issueGuard req).Obeys w (detect req f base tod polls) fun w' r =>
      w'.Past false false ∧ ∀ e, r = some (.error e) → (ConsReply.error e).commandIssued = true := by
  cases base with
  | none => exact ⟨h, fun _ => nofun⟩
  | some base =>
    rw [detect]
    split
    · refine obeys_cons ⟨h.permitted, h.issued⟩ fun start => ?_
      refine obeys_bind.mpr ((obeys_detectLoop _ base _ start polls h).imp ?_)
      rintro w' (_ | (e | reply)) ⟨h', he⟩
      · exact ⟨h', fun _ => nofun⟩
      · exact ⟨h', by rintro _ ⟨⟩; exact he e rfl⟩
      · exact ⟨h', fun _ => nofun⟩
    · exact obeys_bind.mpr ((obeys_storeDetection base tod h).imp fun _ _ h' =>
        ⟨h', fun _ => nofun⟩)

theorem obeys_storeCursor (tod : UInt64) (cur : SolCursor) (h : w.Past false false) :
    (issueGuard req).Obeys w (storeCursor f tod cur) fun w' _ => w'.Past false false := by
  refine obeys_cons ⟨h.permitted, h.issued, h.held⟩ fun store => ?_
  cases store with
  | false => exact h
  | true => exact obeys_cons ⟨h.permitted, h.issued, h.held⟩ fun _ => h

theorem obeys_answerIssued (base : Option MttAnchor) (tod : UInt64) (resp : List Char)
    (cur : SolCursor) (polls : Nat) (h : w.Past false false) :
    (issueGuard req).Obeys w (answerIssued req f base tod resp cur polls) Ended := by
  refine obeys_bind.mpr ((obeys_storeCursor tod cur h).imp fun w' _ h => ?_)
  refine obeys_bind.mpr ((obeys_detect base tod polls h).imp ?_)
  rintro w' (_ | (e | detection)) ⟨h', he⟩
  · exact ⟨fun _ => nofun, fun _ => ⟨h'.issued, fun _ => h'.held⟩⟩
  · exact obeys_answer h' (he e rfl)
  · exact obeys_answer h' rfl

theorem obeys_release (h : w.Past locked false) :
    (issueGuard req).Obeys w (consoleLockRelease locked) fun w' _ => w'.Past false false := by
  cases locked with
  | false => exact h
  | true =>
    exact ⟨⟨h.held, h.issued, h.capturing⟩, fun _ =>
      ⟨h.permitted, h.issued, rfl, h.capturing, h.replied⟩⟩

theorem obeys_armDetection (h : w.Past locked true) :
    (issueGuard req).Obeys w (armDetection f) fun w' r =>
      w'.Past locked true ∧ ∀ e, r = .error e → e ∈ IssueWatch.lockedErrors := by
  rw [armDetection]
  split
  · exact ⟨h, fun _ => nofun⟩
  · refine obeys_cons ⟨h.permitted, h.issued⟩ fun snap => ?_
    split
    · exact ⟨h, fun _ => nofun⟩
    · exact ⟨h, by rintro _ ⟨⟩; exact List.mem_cons_self⟩

/-- Whatever the table, the storage and the turns answer, the reply says that the command was
issued and the lock is free in the end. -/
theorem obeys_afterIssue (polls : Nat) (h : w.Past locked true)
    (hlocked : req.anchor = true → locked = true) :
    (issueGuard req).Obeys w (afterIssue req f locked polls) Ended := by
  refine obeys_bind.mpr (obeys_armDetection h |>.imp ?_)
  rintro w' (e | base) ⟨h', he⟩
  · exact obeys_lockedError h' (he e rfl)
  · refine obeys_cons ⟨h'.permitted, h'.issued⟩ fun tod => ?_
    refine obeys_cons ⟨h'.permitted, h'.issued⟩ fun resp => ?_
    cases resp with
    | false => exact obeys_lockedError h' (List.mem_cons_of_mem _ List.mem_cons_self)
    | true =>
      have hheld : req.anchor = true → w'.held = true := fun ha => h'.held.trans (hlocked ha)
      refine obeys_cons ⟨h'.permitted, h'.issued, hheld⟩ fun turns => ?_
      cases hcapture : captureInto f.cmdUpper RESP_CAP [] none turns with
      | none =>
        refine ⟨fun _ => nofun, fun _ => ⟨h'.issued, fun hends => ?_⟩⟩
        have hopen : (!(captureInto f.cmdUpper RESP_CAP [] none turns).isSome) = false := hends
        rw [hcapture] at hopen
        cases hopen
      | some r =>
        have hpast : (w'.next ⟨.capturePolls f.cmdUpper, turns⟩).Past locked false :=
          ⟨h'.permitted, h'.issued, h'.held, rfl, h'.replied⟩
        refine obeys_bind.mpr ((obeys_release hpast).imp fun _ _ h'' => ?_)
        split
        · exact obeys_answer h'' rfl
        · exact obeys_answer h'' rfl
        · exact obeys_answerIssued base _ _ _ polls h''

/-! ## In front of the command -/

/-- The caller is permitted, the command is the body's, and it is not issued nor answered. -/
structure IssueWatch.Ready (w : IssueWatch) (f : IssueFields) (locked : Bool) : Prop where
  permitted : w.permitted = true
  held : w.held = locked
  unissued : w.issued = false
  replied : w.replied = none
  body : ∃ body, w.body = some body ∧ issueFields body = .ok f

/-- A session that saw the server quiescing is not granted anything. -/
def ConsProg.LockRc.Leaves (req : ConsRequest) (f : IssueFields) (w : IssueWatch) : LockRc → Prop
  | .granted locked => w.Ready f locked ∧ w.quiesced = false ∧ (req.anchor = true → locked = true)
  | _ => w.Ready f false

theorem obeys_lockTries (n : Nat) (h : w.Ready f false) (hq : w.quiesced = false)
    (hanchor : req.anchor = true) :
    (issueGuard req).Obeys w (lockTries n) fun w' r => r.Leaves req f w' := by
  induction n generalizing w with
  | zero => exact h
  | succ n ih =>
    refine obeys_cons ⟨h.permitted, hanchor, h.held, h.unissued⟩ fun taken => ?_
    cases taken with
    | true => exact ⟨⟨h.permitted, rfl, h.unissued, h.replied, h.body⟩, hq, fun _ => rfl⟩
    | false =>
      have h' : ∀ q, ({ w with quiesced := q, held := false } : IssueWatch).Ready f false :=
        fun _ => ⟨h.permitted, rfl, h.unissued, h.replied, h.body⟩
      refine obeys_cons h.permitted fun down => ?_
      cases down with
      | true => exact h' _
      | false =>
        refine obeys_cons h.permitted fun _ => ih (h' _) ?_
        exact (Bool.or_false _).trans hq

theorem obeys_consoleLockAcquire (h : w.Ready f false) (hq : w.quiesced = false) :
    (issueGuard req).Obeys w (consoleLockAcquire req.anchor) fun w' r => r.Leaves req f w' := by
  rw [consoleLockAcquire]
  split
  · next ha => exact obeys_lockTries _ h hq ha
  · next ha => exact ⟨h, hq, fun ha' => absurd ha' ha⟩

theorem obeys_lockUnlessQuiescing (h : w.Ready f false) (hq : w.quiesced = false) :
    (issueGuard req).Obeys w (lockUnlessQuiescing req.anchor) fun w' r => r.Leaves req f w' := by
  have h' : ∀ q, ({ w with quiesced := q } : IssueWatch).Ready f false := fun _ =>
    ⟨h.permitted, h.held, h.unissued, h.replied, h.body⟩
  refine obeys_cons h.permitted fun down => ?_
  cases down with
  | true => exact h' _
  | false => exact obeys_consoleLockAcquire (h' _) ((Bool.or_false _).trans hq)

/-- An error in front of the command says that it was not issued. -/
theorem obeys_unissued (hheld : w.held = false) (hissued : w.issued = false)
    (hnone : w.replied = none) {e : ConsoleError} (he : (ConsReply.error e).commandIssued = false) :
    (issueGuard req).Obeys w (sendQuit false (.error e)) Ended :=
  obeys_sendQuit hheld hnone (he.trans hissued.symm) nofun

theorem obeys_issueLocked (polls : Nat) (h : w.Ready f false) (hq : w.quiesced = false) :
    (issueGuard req).Obeys w (issueLocked req f polls) Ended := by
  refine obeys_bind.mpr ((obeys_lockUnlessQuiescing h hq).imp ?_)
  rintro w' (locked | _ | _) h'
  · obtain ⟨hready, hq', hanchor⟩ := h'
    obtain ⟨body, hbody, hfields⟩ := hready.body
    have hheld : req.anchor = true → w'.held = true := fun ha => hready.held.trans (hanchor ha)
    refine obeys_cons ⟨hready.permitted, hready.unissued, hq', hready.replied, hheld, body, f, hbody,
      hfields, rfl⟩ fun _ => ?_
    exact obeys_afterIssue polls ⟨hready.permitted, rfl, hready.held, rfl, hready.replied⟩ hanchor
  · exact obeys_unissued h'.held h'.unissued h'.replied rfl
  · exact obeys_unissued h'.held h'.unissued h'.replied rfl

/-- No check of the request answers with a code that says the command was issued. -/
theorem headerError_unissued {e : ConsoleError} (h : headerError req = some e) :
    (ConsReply.error e).commandIssued = false := by
  rw [headerError] at h
  split at h
  · obtain rfl := Option.some.inj h
    rfl
  · dsimp only at h
    split at h
    · obtain rfl := Option.some.inj h
      rfl
    · cases h

theorem bodyError_unissued (rc : BodyRc) :
    (ConsReply.error (bodyError rc)).commandIssued = false := by
  cases rc <;> rfl

theorem issueFields_unissued {body : List Char} {e : ConsoleError}
    (h : issueFields body = .error e) : (ConsReply.error e).commandIssued = false := by
  unfold issueFields at h
  dsimp only at h
  split at h
  · cases h; rfl
  split at h
  · cases h; rfl
  split at h
  · cases h; rfl
  split at h
  · cases h; rfl
  split at h
  · cases h; rfl
  · cases h

theorem obeys_consoleIssueHandler (polls : Nat) :
    (issueGuard req).Obeys IssueWatch.start (consoleIssueHandler req polls) Ended := by
  refine obeys_cons rfl fun permitted => ?_
  cases permitted with
  | false =>
    refine ⟨?_, nofun⟩
    rintro _ ⟨⟩
    exact ⟨rfl, rfl, Or.inl ⟨rfl, rfl⟩⟩
  | true =>
    rw [if_neg nofun]
    split
    · exact obeys_unissued rfl rfl rfl (headerError_unissued ‹_›)
    · refine obeys_cons ⟨rfl, rfl⟩ fun body => ?_
      cases body with
      | error rc => exact obeys_unissued rfl rfl rfl (bodyError_unissued rc)
      | ok body =>
        dsimp only
        split
        · exact obeys_unissued rfl rfl rfl (issueFields_unissued ‹_›)
        · exact obeys_issueLocked polls ⟨rfl, rfl, rfl, rfl, body, rfl, ‹_›⟩ rfl

end

/-! ## The runs -/

/-- The watch behind some events of a run. -/
def issueWatched (t : List ConsEvent) : IssueWatch := t.foldl IssueWatch.next .start

def isIssue : ConsEvent → Bool
  | ⟨.issueCommand _, _⟩ => true
  | _ => false

/-- The replies of a run. -/
def replies (t : List ConsEvent) : List ConsReply :=
  t.filterMap fun
    | ⟨.reply r, _⟩ => some r
    | _ => none

/-- The watch has seen the commands and the replies of the run, and there is one of each at most. -/
theorem next_seen {req : ConsRequest} {w : IssueWatch} {t : List ConsEvent} (e : ConsEvent)
    (h : t.countP isIssue = w.issued.toNat ∧ replies t = w.replied.toList)
    (hallow : w.Allows req e.1) :
    (t ++ [e]).countP isIssue = (w.next e).issued.toNat ∧
      replies (t ++ [e]) = (w.next e).replied.toList := by
  obtain ⟨c, a⟩ := e
  rw [List.countP_append, List.countP_singleton, replies, List.filterMap_append, ← replies, h.1, h.2]
  cases c
  case issueCommand text =>
    have hissued : w.issued = false := hallow.2.1
    rw [hissued]
    exact ⟨rfl, List.append_nil _⟩
  case reply r =>
    have hnone : w.replied = none := hallow.1
    rw [hnone]
    exact ⟨rfl, rfl⟩
  all_goals exact ⟨rfl, List.append_nil _⟩

/-- In every run the code of the answer tells whether SVC 34 was issued, and it was at most once. There
is one reply, if the caller was not refused, and the lock is free in the end; the command is that of
the body, it goes under the lock and never once the server was seen quiescing, and the store is not
touched under the lock, nor a reply sent under it but for the two errors in front of the capture. -/
theorem issue_answer (req : ConsRequest) (polls : Nat) {t : List ConsEvent} {reply : ConsReply}
    (hrun : Run (consoleIssueHandler req polls) t (some reply)) :
    t.countP isIssue = reply.commandIssued.toNat ∧
    (reply = .refused ∧ replies t = [] ∨ replies t = [reply]) ∧
    (issueWatched t).held = false ∧
    ∀ before e behind, t = before ++ e :: behind → (issueWatched before).Allows req e.1 := by
  have hobeys : (issueGuard req).Obeys .start (consoleIssueHandler req polls) Ended :=
    obeys_consoleIssueHandler polls
  obtain ⟨hheld, hissued, hreplied⟩ : (issueWatched t).held = false ∧
      reply.commandIssued = (issueWatched t).issued ∧
      (reply = .refused ∧ (issueWatched t).replied = none ∨
        (issueWatched t).replied = some reply) :=
    (hobeys.result hrun).reply reply rfl
  have hstart : ([] : List ConsEvent).countP isIssue = IssueWatch.start.issued.toNat ∧
      replies [] = IssueWatch.start.replied.toList := ⟨rfl, rfl⟩
  obtain ⟨hcount, hreplies⟩ : t.countP isIssue = (issueWatched t).issued.toNat ∧
      replies t = (issueWatched t).replied.toList :=
    hobeys.invariant hrun
      (I := fun w t => t.countP isIssue = w.issued.toNat ∧ replies t = w.replied.toList)
      (fun _ _ e => next_seen e) hstart
  refine ⟨?_, ?_, hheld, fun before e behind ht => hobeys.allowed hrun ht⟩
  · rw [hcount, hissued]
  · rw [hreplies]
    rcases hreplied with ⟨hrefused, hnone⟩ | hsome
    · exact Or.inl ⟨hrefused, by rw [hnone]; rfl⟩
    · exact Or.inr (by rw [hsome]; rfl)

/-- A server that drops a request for a display in the capture: the answer is 8/15. -/
def quiescingWorld : World ConsCall ConsCall.Ans Unit
  | .consoleAuthorize, s | .trylock, s | .malloc _, s | .kvstore, s => (true, s)
  | .serverQuiescing, s => (false, s)
  | .readRequestContent, s => (.ok "\x7b\"cmd\":\"D A,L\"\x7d".toList, s)
  | .mttSnap, s => (none, s)
  | .tod64, s => ((0 : UInt64), s)
  | .todHi, s => ((0 : UInt32), s)
  | .capturePolls _, s => ([⟨true, none, false⟩], s)
  | .consPollNap, s | .unlock, s | .issueCommand _, s | .ntSet _ _, s | .reply _, s => ((), s)

def displayRequest : ConsRequest :=
  ⟨some "MVSMF".toList, some "application/json".toList, none, "http".toList, true⟩

theorem issue_answer_abandoned :
    ((consoleIssueHandler displayRequest 0).exec quiescingWorld ()).1.countP isIssue = 1 := by
  have hrun : Run (consoleIssueHandler displayRequest 0)
      ((consoleIssueHandler displayRequest 0).exec quiescingWorld ()).1
      (some (.error captureAbandoned)) :=
    exec_run quiescingWorld (consoleIssueHandler displayRequest 0) ()
  exact (issue_answer displayRequest 0 hrun).1

end Mvsmf
