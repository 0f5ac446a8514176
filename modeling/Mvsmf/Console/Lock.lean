import Mvsmf.Console.IssueAnswer
import Mvsmf.Lib.System
import Mvsmf.Router.Session
import Mathlib

/-!
# One console command at a time

Any number of workers run `consoleIssueHandler`, one call of one worker at a time. The lock is an ENQ of
the task, and the session says that it is held, so that `quit` and the recovery of an abend release
what is still held and nothing else. What a worker may do next is what `issueGuard` says of its
handler.
-/

universe u

namespace Mvsmf

open Prog Prog.Monitor ConsProg

/-! ## The workers -/

/-- Where a worker is: in the handler, with what its calls have shown and what is left of it, or with
the router behind an abend. -/
inductive ConsolePlace
  | idle
  | handler (req : ConsRequest) (watch : IssueWatch) (rest : ConsProg (Option ConsReply))
  | recovering

/-- Who gives the lock back. -/
inductive Releaser
  | handler
  | sessionCleanup
  deriving DecidableEq

inductive LockEvent
  | begin
  | refused
  | acquired
  | issued
  | released (who : Releaser)
  deriving DecidableEq

/-- A worker: its place, `session->console_lock`, and what it did, oldest first. -/
structure ConsoleWorker where
  place : ConsolePlace
  lock : Bool
  trace : List LockEvent

/-- The owner of the ENQ, and the workers. -/
@[ext] structure ConsoleState (ι : Type u) where
  holder : Option ι
  worker : ι → ConsoleWorker

/-! ## What a call does -/

/-- The answer to a request that was refused the lock. -/
def ConsReply.lockRefused : ConsReply → Bool
  | .error e => e.retcode == 8 && (e.reasonCode == 16 || e.reasonCode == 17)
  | _ => false

def lockEvents : ConsEvent → List LockEvent
  | ⟨.trylock, taken⟩ => cond taken [.acquired] []
  | ⟨.unlock, _⟩ => [.released .handler]
  | ⟨.issueCommand _, _⟩ => [.issued]
  | ⟨.reply r, _⟩ => cond r.lockRefused [.refused] []
  | _ => []

/-- `session->console_lock` behind a call. -/
def lockAfter (lock : Bool) : ConsEvent → Bool
  | ⟨.trylock, taken⟩ => cond taken true lock
  | ⟨.unlock, _⟩ => false
  | _ => lock

variable {ι : Type u} [DecidableEq ι]

/-- A DEQ by `w`. -/
def dequeue (w : ι) (holder : Option ι) : Option ι := if holder = some w then none else holder

/-- The owner of the ENQ behind a call by `w`. -/
def holderAfter (w : ι) (holder : Option ι) : ConsEvent → Option ι
  | ⟨.trylock, taken⟩ => cond taken (some w) holder
  | ⟨.unlock, _⟩ => dequeue w holder
  | _ => holder

/-- What a call can be answered: an ENQ is granted if nobody has it, and a capture comes to an end. -/
def Answerable (holder : Option ι) : ConsEvent → Prop
  | ⟨.trylock, taken⟩ => (taken = true ↔ holder = none)
  | ⟨.capturePolls _, (turns : List CapturePoll)⟩ =>
    ∃ p ∈ turns, p.quiesced = true ∨ p.timeUp = true
  | _ => True

/-- `session_cleanup` releases the lock of a session. -/
def cleanupUnlocks (lock : Bool) : Bool :=
  let session : SessionSlots Unit Unit := { initSession with consoleLock := lock }
  (sessionCleanup (fun _ => false) session).2.any (·.1 == .console)

/-- A worker behind a call of its handler. -/
def ConsoleWorker.called (x : ConsoleWorker) (req : ConsRequest) (watch : IssueWatch) (e : ConsEvent)
    (rest : ConsProg (Option ConsReply)) : ConsoleWorker :=
  ⟨.handler req (watch.next e) rest, lockAfter x.lock e, x.trace ++ lockEvents e⟩

/-- A worker behind `session_cleanup`. -/
def ConsoleWorker.cleanedUp (x : ConsoleWorker) : ConsoleWorker :=
  if cleanupUnlocks x.lock then ⟨.idle, false, x.trace ++ [.released .sessionCleanup]⟩
  else { x with place := .idle }

namespace ConsoleState

def set (s : ConsoleState ι) (w : ι) (x : ConsoleWorker) : ConsoleState ι :=
  { s with worker := Function.update s.worker w x }

/-- Behind a call of the handler. -/
def call (s : ConsoleState ι) (w : ι) (req : ConsRequest) (watch : IssueWatch) (e : ConsEvent)
    (rest : ConsProg (Option ConsReply)) : ConsoleState ι where
  holder := holderAfter w s.holder e
  worker := Function.update s.worker w ((s.worker w).called req watch e rest)

/-- Behind `session_cleanup`. -/
def cleanup (s : ConsoleState ι) (w : ι) : ConsoleState ι where
  holder := if cleanupUnlocks (s.worker w).lock then dequeue w s.holder else s.holder
  worker := Function.update s.worker w (s.worker w).cleanedUp

end ConsoleState

/-- One step of the worker `w`. `anchor` is whether there is a context to ENQ on; a new request has a
new session. -/
inductive ConsoleStep (anchor : Bool) (w : ι) : ConsoleState ι → ConsoleState ι → Prop
  | begin (s : ConsoleState ι) {req : ConsRequest} (polls : Nat) : req.anchor = anchor →
      (s.worker w).place = .idle →
      ConsoleStep anchor w s (s.set w
        ⟨.handler req .start (consoleIssueHandler req polls), false,
          (s.worker w).trace ++ [.begin]⟩)
  | call (s : ConsoleState ι) {req : ConsRequest} {watch : IssueWatch} {c : ConsCall}
      {k : c.Ans → ConsProg (Option ConsReply)} (a : c.Ans) :
      (s.worker w).place = .handler req watch (.call c k) → Answerable s.holder ⟨c, a⟩ →
      ConsoleStep anchor w s (s.call w req watch ⟨c, a⟩ (k a))
  | ret (s : ConsoleState ι) {req : ConsRequest} {watch : IssueWatch} {r : ConsReply} :
      (s.worker w).place = .handler req watch (.ret (some r)) →
      ConsoleStep anchor w s (s.set w { s.worker w with place := .idle })
  | abend (s : ConsoleState ι) {req : ConsRequest} {watch : IssueWatch}
      {rest : ConsProg (Option ConsReply)} : (s.worker w).place = .handler req watch rest →
      ConsoleStep anchor w s (s.set w { s.worker w with place := .recovering })
  | cleanup (s : ConsoleState ι) : (s.worker w).place = .recovering →
      ConsoleStep anchor w s (s.cleanup w)

def consoleSystem (ι : Type u) [DecidableEq ι] (anchor : Bool) : System (ConsoleState ι) where
  init s := s = ⟨none, fun _ => ⟨.idle, false, []⟩⟩
  step s s' := ∃ w, ConsoleStep anchor w s s'

/-! ## What a trace shows -/

/-- It happened in the last request of the trace. -/
def sinceBegin (e : LockEvent) (trace : List LockEvent) : Bool :=
  trace.foldl (fun seen e' => !decide (e' = .begin) && (seen || decide (e' = e))) false

/-- No request both issues a command and is refused the lock. -/
def NeverBoth (trace : List LockEvent) : Prop :=
  ∀ pre, pre <+: trace → sinceBegin .issued pre = true → sinceBegin .refused pre = false

def LockEvent.isLock : LockEvent → Bool
  | .acquired => true
  | .released _ => true
  | _ => false

/-- Every command is issued between taking the lock and giving it back. -/
def IssuesLocked (trace : List LockEvent) : Prop :=
  ∀ pre post, trace = pre ++ .issued :: post →
    (pre.filter LockEvent.isLock).getLast? = some .acquired

/-- The lock was acquired and released in turn, and acquired once more if it is `held`. -/
def AcquiredReleased (held : Bool) (trace : List LockEvent) : Prop :=
  ∃ rs : List Releaser, trace.filter LockEvent.isLock =
    rs.flatMap (fun who => [.acquired, .released who]) ++ if held then [.acquired] else []

theorem sinceBegin_concat (e e' : LockEvent) (trace : List LockEvent) :
    sinceBegin e (trace ++ [e']) = (!decide (e' = .begin) && (sinceBegin e trace || decide (e' = e))) := by
  rw [sinceBegin, List.foldl_append]
  rfl

theorem sinceBegin_other {e e' : LockEvent} (trace : List LockEvent) (hbegin : e' ≠ .begin)
    (he : e' ≠ e) : sinceBegin e (trace ++ [e']) = sinceBegin e trace := by
  rw [sinceBegin_concat, decide_eq_false hbegin, decide_eq_false he, Bool.or_false]
  rfl

theorem NeverBoth.concat {trace : List LockEvent} (h : NeverBoth trace) {e : LockEvent}
    (he : sinceBegin .issued (trace ++ [e]) = true → sinceBegin .refused (trace ++ [e]) = false) :
    NeverBoth (trace ++ [e]) := by
  intro pre hpre
  rcases List.prefix_concat_iff.mp hpre with rfl | hpre
  · exact he
  · exact h pre hpre

theorem IssuesLocked.concat {trace : List LockEvent} (h : IssuesLocked trace) {e : LockEvent}
    (he : e = .issued → (trace.filter LockEvent.isLock).getLast? = some .acquired) :
    IssuesLocked (trace ++ [e]) := by
  intro pre post hsplit
  rcases List.eq_nil_or_concat post with rfl | ⟨post, f, rfl⟩
  · obtain ⟨rfl, hlast⟩ := List.append_inj' hsplit rfl
    exact he (List.cons.inj hlast).1
  · rw [List.concat_eq_append, ← List.cons_append, ← List.append_assoc] at hsplit
    exact h pre post (List.append_inj' hsplit rfl).1

theorem AcquiredReleased.concat {held : Bool} {trace : List LockEvent}
    (h : AcquiredReleased held trace) {e : LockEvent} (he : e.isLock = false) :
    AcquiredReleased held (trace ++ [e]) := by
  obtain ⟨rs, hrs⟩ := h
  refine ⟨rs, ?_⟩
  rw [List.filter_append, hrs, List.filter_cons_of_neg (by simp [he]), List.filter_nil,
    List.append_nil]

theorem AcquiredReleased.take {trace : List LockEvent} (h : AcquiredReleased false trace) :
    AcquiredReleased true (trace ++ [.acquired]) := by
  obtain ⟨rs, hrs⟩ := h
  refine ⟨rs, ?_⟩
  rw [List.filter_append, hrs]
  simp [LockEvent.isLock]

theorem AcquiredReleased.release {trace : List LockEvent} (h : AcquiredReleased true trace)
    (who : Releaser) : AcquiredReleased false (trace ++ [.released who]) := by
  obtain ⟨rs, hrs⟩ := h
  refine ⟨rs ++ [who], ?_⟩
  rw [List.filter_append, hrs]
  simp [LockEvent.isLock]

theorem AcquiredReleased.last {trace : List LockEvent} (h : AcquiredReleased true trace) :
    (trace.filter LockEvent.isLock).getLast? = some .acquired := by
  obtain ⟨rs, hrs⟩ := h
  rw [hrs, if_pos rfl, List.getLast?_concat]

/-! ## The invariant -/

/-- A worker in the handler: what is left of it obeys the guard, the session and the trace are as the
watch has it, and an issued command is under the lock until its capture ends. -/
structure ConsoleWorker.InHandler (anchor : Bool) (x : ConsoleWorker) (req : ConsRequest)
    (watch : IssueWatch) (rest : ConsProg (Option ConsReply)) : Prop where
  context : req.anchor = anchor
  obeys : (issueGuard req).Obeys watch rest Ended
  held : watch.held = x.lock
  endless : watch.endless = false
  capturing : watch.capturing = true → watch.issued = true ∧ (anchor = true → watch.held = true)
  issued : sinceBegin .issued x.trace = watch.issued
  refused : sinceBegin .refused x.trace = true → watch.issued = false ∧ watch.replied.isSome = true

/-- What holds of a worker by its place. -/
def ConsoleWorker.At (anchor : Bool) (x : ConsoleWorker) : Prop :=
  match x.place with
  | .idle => x.lock = false
  | .handler req watch rest => x.InHandler anchor req watch rest
  | .recovering => True

structure ConsoleWorker.Ok (anchor : Bool) (x : ConsoleWorker) : Prop where
  place : x.At anchor
  both : NeverBoth x.trace
  issues : anchor = true → IssuesLocked x.trace
  locks : AcquiredReleased x.lock x.trace

structure ConsoleState.Inv (anchor : Bool) (s : ConsoleState ι) : Prop where
  ok : ∀ w, (s.worker w).Ok anchor
  held : ∀ w, (s.worker w).lock = true ↔ s.holder = some w

theorem cleanupUnlocks_eq (lock : Bool) : cleanupUnlocks lock = lock := by
  cases lock <;> rfl

theorem isSome_ite {α : Type} {c : Prop} [Decidable c] {x y : Option α} (hx : x.isSome = true)
    (hy : y.isSome = true) : (if c then x else y).isSome = true := by
  split
  · exact hx
  · exact hy

/-- A capture whose turns come to an end. -/
theorem captureEnds_of_end {cmdUpper : List Char} {turns : List CapturePoll}
    (h : ∃ p ∈ turns, p.quiesced = true ∨ p.timeUp = true) : captureEnds cmdUpper turns = true := by
  have general : ∀ (turns : List CapturePoll), (∃ p ∈ turns, p.quiesced = true ∨ p.timeUp = true) →
      ∀ stable prevTotal looked v,
        (captureLoop cmdUpper RESP_CAP stable prevTotal looked v turns).isSome = true := by
    intro turns
    induction turns with
    | nil =>
      rintro ⟨p, hp, -⟩
      cases hp
    | cons p ps ih =>
      intro hend stable prevTotal looked v
      have hrest : p.quiesced = false → p.timeUp = false →
          ∃ q ∈ ps, q.quiesced = true ∨ q.timeUp = true := by
        intro hq ht
        obtain ⟨q, hmem, hq'⟩ := hend
        rcases List.mem_cons.mp hmem with rfl | hmem
        · rw [hq, ht] at hq'
          simp at hq'
        · exact ⟨q, hmem, hq'⟩
      rw [captureLoop]
      cases hq : p.quiesced with
      | true => rfl
      | false =>
        rw [if_neg Bool.false_ne_true]
        rcases correlateInto p.snap cmdUpper RESP_CAP 0 none v with ⟨_ | _, v'⟩
        · cases ht : p.timeUp with
          | true => rfl
          | false => exact ih (hrest hq ht) _ _ _ _
        · refine isSome_ite rfl ?_
          cases ht : p.timeUp with
          | true => rfl
          | false => exact ih (hrest hq ht) _ _ _ _
  exact general turns h 0 0 false _

namespace ConsoleWorker

variable {anchor : Bool} {x : ConsoleWorker}

/-- A new request has a session of its own. -/
theorem Ok.begin (h : x.Ok anchor) (hidle : x.place = .idle) {req : ConsRequest}
    (hreq : req.anchor = anchor) (polls : Nat) :
    (⟨.handler req .start (consoleIssueHandler req polls), false, x.trace ++ [.begin]⟩ :
      ConsoleWorker).Ok anchor := by
  have hfree : x.lock = false := by
    have hplace := h.place
    rwa [At, hidle] at hplace
  have hlocks := h.locks
  rw [hfree] at hlocks
  have hnone (e : LockEvent) : sinceBegin e (x.trace ++ [.begin]) = false := by
    rw [sinceBegin_concat]
    rfl
  refine ⟨⟨hreq, obeys_consoleIssueHandler polls, rfl, rfl, nofun, hnone _, fun hrefused => ?_⟩,
    h.both.concat fun _ => hnone _, fun ha => (h.issues ha).concat nofun, hlocks.concat rfl⟩
  rw [hnone] at hrefused
  cases hrefused

/-- A call that shows nothing of the lock and the command. -/
theorem Ok.quiet (h : x.Ok anchor) {req : ConsRequest} {watch : IssueWatch} {c : ConsCall}
    {k : c.Ans → ConsProg (Option ConsReply)} (hin : x.InHandler anchor req watch (.call c k))
    (a : c.Ans) (hevents : lockEvents ⟨c, a⟩ = []) (hlock : lockAfter x.lock ⟨c, a⟩ = x.lock)
    (hheld : (watch.next ⟨c, a⟩).held = watch.held)
    (hendless : (watch.next ⟨c, a⟩).endless = false)
    (hcapturing : (watch.next ⟨c, a⟩).capturing = true → watch.capturing = true)
    (hissued : (watch.next ⟨c, a⟩).issued = watch.issued)
    (hreplied : watch.replied.isSome = true → (watch.next ⟨c, a⟩).replied.isSome = true) :
    (x.called req watch ⟨c, a⟩ (k a)).Ok anchor := by
  rw [called, hevents, hlock, List.append_nil]
  refine ⟨⟨hin.context, hin.obeys.2 a, hheld.trans hin.held, hendless, fun hcap => ?_,
    hin.issued.trans hissued.symm, fun hrefused => ?_⟩, h.both, h.issues, h.locks⟩
  · rw [hissued, hheld]
    exact hin.capturing (hcapturing hcap)
  · obtain ⟨hno, hsome⟩ := hin.refused hrefused
    exact ⟨hissued.trans hno, hreplied hsome⟩

theorem Ok.taken (h : x.Ok anchor) {req : ConsRequest} {watch : IssueWatch}
    {k : Bool → ConsProg (Option ConsReply)} (hin : x.InHandler anchor req watch (.call .trylock k)) :
    (x.called req watch ⟨.trylock, true⟩ (k true)).Ok anchor := by
  obtain ⟨-, -, hfree, hissued⟩ := hin.obeys.1
  have hlocks := h.locks
  rw [← hin.held, hfree] at hlocks
  have hsame (e : LockEvent) (he : LockEvent.acquired ≠ e) :
      sinceBegin e (x.trace ++ [.acquired]) = sinceBegin e x.trace :=
    sinceBegin_other x.trace (by decide) he
  have hnone : sinceBegin .issued (x.trace ++ [.acquired]) = false := by
    rw [hsame .issued (by decide), hin.issued, hissued]
  refine ⟨⟨hin.context, hin.obeys.2 true, rfl, hin.endless, fun hcap => ?_, ?_, fun hrefused => ?_⟩,
    h.both.concat fun hyes => ?_, fun ha => (h.issues ha).concat nofun, hlocks.take⟩
  · exact ⟨(hin.capturing hcap).1, fun _ => rfl⟩
  · exact hnone.trans hissued.symm
  · exact hin.refused ((hsame .refused (by decide)).symm.trans hrefused)
  · rw [hnone] at hyes
    cases hyes

theorem Ok.unlocked (h : x.Ok anchor) {req : ConsRequest} {watch : IssueWatch}
    {k : Unit → ConsProg (Option ConsReply)} (hin : x.InHandler anchor req watch (.call .unlock k)) :
    (x.called req watch ⟨.unlock, ()⟩ (k ())).Ok anchor := by
  obtain ⟨hheld, -, hcapturing⟩ := hin.obeys.1
  have hlocks := h.locks
  rw [← hin.held, hheld] at hlocks
  have hsame (e : LockEvent) (he : LockEvent.released .handler ≠ e) :
      sinceBegin e (x.trace ++ [.released .handler]) = sinceBegin e x.trace :=
    sinceBegin_other x.trace (by decide) he
  refine ⟨⟨hin.context, hin.obeys.2 (), rfl, hin.endless, fun hcap => ?_, ?_, fun hrefused => ?_⟩,
    h.both.concat fun hyes => ?_, fun ha => (h.issues ha).concat nofun, hlocks.release .handler⟩
  · exact absurd (hcapturing.symm.trans hcap) Bool.false_ne_true
  · exact (hsame .issued (by decide)).trans hin.issued
  · exact hin.refused ((hsame .refused (by decide)).symm.trans hrefused)
  · rw [hsame .issued (by decide)] at hyes
    rw [hsame .refused (by decide)]
    exact h.both _ List.prefix_rfl hyes

theorem Ok.issue (h : x.Ok anchor) {req : ConsRequest} {watch : IssueWatch} {text : List Char}
    {k : Unit → ConsProg (Option ConsReply)}
    (hin : x.InHandler anchor req watch (.call (.issueCommand text) k)) :
    (x.called req watch ⟨.issueCommand text, ()⟩ (k ())).Ok anchor := by
  obtain ⟨-, -, -, hnone, hlocked, -⟩ := hin.obeys.1
  have hunrefused : sinceBegin .refused (x.trace ++ [.issued]) = false := by
    rw [sinceBegin_other x.trace (by decide) (by decide)]
    cases hrefused : sinceBegin .refused x.trace with
    | false => rfl
    | true =>
      have hsome := (hin.refused hrefused).2
      rw [hnone] at hsome
      cases hsome
  refine ⟨⟨hin.context, hin.obeys.2 (), hin.held, hin.endless, fun _ => ⟨rfl, fun ha => ?_⟩, ?_,
    fun hrefused => ?_⟩, h.both.concat fun _ => hunrefused,
    fun ha => (h.issues ha).concat fun _ => ?_, h.locks.concat rfl⟩
  · exact hlocked (hin.context.trans ha)
  · have hissued : sinceBegin .issued (x.trace ++ [.issued]) = true := by
      rw [sinceBegin_concat, decide_eq_true rfl, Bool.or_true]
      rfl
    exact hissued
  · rw [show (x.called req watch ⟨.issueCommand text, ()⟩ (k ())).trace = x.trace ++ [.issued] from
      rfl, hunrefused] at hrefused
    cases hrefused
  · have hlocks := h.locks
    rw [← hin.held, hlocked (hin.context.trans ha)] at hlocks
    exact hlocks.last

theorem commandIssued_lockRefused {r : ConsReply} (h : r.lockRefused = true) :
    r.commandIssued = false := by
  cases r with
  | refused => cases h
  | issued => cases h
  | error e =>
    simp only [ConsReply.lockRefused, Bool.and_eq_true, Bool.or_eq_true, beq_iff_eq] at h
    rcases h with ⟨h8, h | h⟩ <;> simp [ConsReply.commandIssued, h8, h]

theorem Ok.replied (h : x.Ok anchor) {req : ConsRequest} {watch : IssueWatch} {r : ConsReply}
    {k : Unit → ConsProg (Option ConsReply)}
    (hin : x.InHandler anchor req watch (.call (.reply r) k)) :
    (x.called req watch ⟨.reply r, ()⟩ (k ())).Ok anchor := by
  cases hlock : r.lockRefused with
  | false =>
    refine h.quiet hin () ?_ rfl rfl hin.endless (fun hcap => Bool.noConfusion hcap) rfl fun _ => rfl
    show cond r.lockRefused _ _ = _
    rw [hlock]
    rfl
  | true =>
    obtain ⟨-, hissued, -⟩ := hin.obeys.1
    rw [commandIssued_lockRefused hlock] at hissued
    have hevents : lockEvents ⟨.reply r, ()⟩ = [.refused] := by
      show cond r.lockRefused _ _ = _
      rw [hlock]
      rfl
    have hnone : sinceBegin .issued (x.trace ++ [.refused]) = false := by
      rw [sinceBegin_other x.trace (by decide) (by decide), hin.issued, ← hissued]
    rw [called, hevents]
    refine ⟨⟨hin.context, hin.obeys.2 (), hin.held, hin.endless, fun hcap => Bool.noConfusion hcap,
      hnone.trans hissued, fun _ => ⟨hissued.symm, rfl⟩⟩, h.both.concat fun hyes => ?_,
      fun ha => (h.issues ha).concat nofun, h.locks.concat rfl⟩
    rw [hnone] at hyes
    cases hyes

omit [DecidableEq ι] in
theorem Ok.call (h : x.Ok anchor) {req : ConsRequest} {watch : IssueWatch} {c : ConsCall}
    {k : c.Ans → ConsProg (Option ConsReply)} (hin : x.InHandler anchor req watch (.call c k))
    {holder : Option ι} {a : c.Ans} (ha : Answerable holder ⟨c, a⟩) :
    (x.called req watch ⟨c, a⟩ (k a)).Ok anchor := by
  cases c
  case trylock =>
    cases a with
    | true => exact h.taken hin
    | false =>
      obtain ⟨-, -, hfree, -⟩ := hin.obeys.1
      exact h.quiet hin false rfl rfl hfree.symm hin.endless id rfl id
  case unlock => exact h.unlocked hin
  case issueCommand text => exact h.issue hin
  case reply r => exact h.replied hin
  case capturePolls cmdUpper =>
    refine h.quiet hin a rfl rfl rfl ?_ (fun hcap => Bool.noConfusion hcap) rfl id
    show (!captureEnds cmdUpper a) = false
    rw [captureEnds_of_end ha]
    rfl
  all_goals exact h.quiet hin a rfl rfl rfl hin.endless id rfl id

theorem Ok.leave (h : x.Ok anchor) {place : ConsolePlace}
    (hplace : ConsoleWorker.At anchor { x with place := place }) :
    ({ x with place := place } : ConsoleWorker).Ok anchor :=
  ⟨hplace, h.both, h.issues, h.locks⟩

theorem Ok.cleanedUp (h : x.Ok anchor) : x.cleanedUp.Ok anchor := by
  rw [ConsoleWorker.cleanedUp, cleanupUnlocks_eq]
  cases hlock : x.lock with
  | false =>
    rw [if_neg Bool.false_ne_true]
    have hleft : ({ x with place := .idle } : ConsoleWorker).Ok anchor := h.leave hlock
    rwa [hlock] at hleft
  | true =>
    rw [if_pos rfl]
    have hlocks := h.locks
    rw [hlock] at hlocks
    have hsame (e : LockEvent) (he : LockEvent.released .sessionCleanup ≠ e) :
        sinceBegin e (x.trace ++ [.released .sessionCleanup]) = sinceBegin e x.trace :=
      sinceBegin_other x.trace (by decide) he
    refine ⟨rfl, h.both.concat fun hyes => ?_, fun ha => (h.issues ha).concat nofun,
      hlocks.release .sessionCleanup⟩
    rw [hsame .issued (by decide)] at hyes
    rw [hsame .refused (by decide)]
    exact h.both _ List.prefix_rfl hyes

end ConsoleWorker

/-! ## The owner of the ENQ -/

theorem dequeue_self (w : ι) (holder : Option ι) : dequeue w holder ≠ some w := by
  rw [dequeue]
  split
  · exact nofun
  next hne => exact hne

theorem dequeue_other {v w : ι} (hv : v ≠ w) (holder : Option ι) :
    dequeue w holder = some v ↔ holder = some v := by
  rw [dequeue]
  split
  next heq =>
    rw [heq]
    exact ⟨nofun, fun h => absurd (Option.some.inj h).symm hv⟩
  · exact Iff.rfl

/-- The session that says it holds the lock is that of the owner, also behind a call. -/
theorem holderAfter_iff {w : ι} {holder : Option ι} {lock : Bool}
    (h : lock = true ↔ holder = some w) {e : ConsEvent} (he : Answerable holder e) :
    (lockAfter lock e = true ↔ holderAfter w holder e = some w) ∧
      ∀ v, v ≠ w → (holderAfter w holder e = some v ↔ holder = some v) := by
  obtain ⟨c, a⟩ := e
  cases c
  case trylock =>
    cases a with
    | true =>
      have hfree : holder = none := Iff.mp he rfl
      refine ⟨iff_of_true rfl rfl, fun v hv => ?_⟩
      rw [hfree]
      exact ⟨fun heq => absurd (Option.some.inj heq).symm hv, nofun⟩
    | false => exact ⟨h, fun _ _ => Iff.rfl⟩
  case unlock =>
    exact ⟨iff_of_false Bool.false_ne_true (dequeue_self w holder),
      fun v hv => dequeue_other hv holder⟩
  all_goals exact ⟨h, fun _ _ => Iff.rfl⟩

/-! ## Runs -/

/-- One worker moves; who else holds the lock is as before. -/
theorem ConsoleState.Inv.update {anchor : Bool} {s : ConsoleState ι} (h : s.Inv anchor) {w : ι}
    {x : ConsoleWorker} (hok : x.Ok anchor) {holder : Option ι}
    (hw : x.lock = true ↔ holder = some w) (hother : ∀ v, v ≠ w → (holder = some v ↔
      s.holder = some v)) :
    (⟨holder, Function.update s.worker w x⟩ : ConsoleState ι).Inv anchor := by
  have hself : Function.update s.worker w x w = x := Function.update_self _ _ _
  have hne : ∀ v, v ≠ w → Function.update s.worker w x v = s.worker v :=
    fun v hv => Function.update_of_ne hv _ _
  constructor
  · intro v
    dsimp only
    by_cases hv : v = w
    · obtain rfl := hv
      rw [hself]
      exact hok
    · rw [hne v hv]
      exact h.ok v
  · intro v
    dsimp only
    by_cases hv : v = w
    · obtain rfl := hv
      rw [hself]
      exact hw
    · rw [hne v hv, hother v hv]
      exact h.held v

/-- One worker moves and does not touch the lock. -/
theorem ConsoleState.Inv.set {anchor : Bool} {s : ConsoleState ι} (h : s.Inv anchor) {w : ι}
    {x : ConsoleWorker} (hok : x.Ok anchor) (hlock : x.lock = (s.worker w).lock) :
    (s.set w x).Inv anchor :=
  h.update hok (hlock ▸ h.held w) fun _ _ => Iff.rfl

omit [DecidableEq ι] in
theorem ConsoleState.Inv.at {anchor : Bool} {s : ConsoleState ι} (h : s.Inv anchor) {w : ι}
    {req : ConsRequest} {watch : IssueWatch} {rest : ConsProg (Option ConsReply)}
    (hplace : (s.worker w).place = .handler req watch rest) :
    (s.worker w).InHandler anchor req watch rest := by
  have hat := (h.ok w).place
  rwa [ConsoleWorker.At, hplace] at hat

theorem ConsoleStep.inv {anchor : Bool} {w : ι} {s s' : ConsoleState ι} (h : s.Inv anchor)
    (hstep : ConsoleStep anchor w s s') : s'.Inv anchor := by
  cases hstep with
  | begin polls hreq hidle =>
    have hfree : (s.worker w).lock = false := by
      have hat := (h.ok w).place
      rwa [ConsoleWorker.At, hidle] at hat
    exact h.set ((h.ok w).begin hidle hreq polls) hfree.symm
  | call a hplace ha =>
    obtain ⟨hself, hother⟩ := holderAfter_iff (h.held w) ha
    exact h.update ((h.ok w).call (h.at hplace) ha) hself hother
  | ret hplace =>
    have hin := h.at hplace
    have hfree : (s.worker w).lock = false := hin.held.symm.trans (hin.obeys.reply _ rfl).1
    exact h.set ((h.ok w).leave hfree) rfl
  | abend hplace => exact h.set ((h.ok w).leave trivial) rfl
  | cleanup hplace =>
    have hheld := h.held w
    refine h.update (h.ok w).cleanedUp ?_ fun v hv => ?_
    · rw [ConsoleWorker.cleanedUp, cleanupUnlocks_eq]
      cases hlock : (s.worker w).lock with
      | true => exact iff_of_false Bool.false_ne_true (dequeue_self w s.holder)
      | false =>
        rw [hlock] at hheld
        simpa [hlock] using hheld
    · split
      · exact dequeue_other hv s.holder
      · exact Iff.rfl

theorem consoleSystem_inv (anchor : Bool) :
    (consoleSystem ι anchor).Invariant (ConsoleState.Inv anchor) where
  init := by
    rintro s rfl
    refine ⟨fun w => ⟨rfl, ?_, fun _ => ?_, [], rfl⟩, fun w => ⟨nofun, nofun⟩⟩
    · intro pre hpre hissued
      rw [List.prefix_nil.mp hpre] at hissued
      cases hissued
    · intro pre post hsplit
      simp at hsplit
  step h hstep := by
    obtain ⟨w, hstep⟩ := hstep
    exact hstep.inv h

/-! ## The end of a request -/

/-- The places of one request, a later one before an earlier one. -/
inductive ConsolePlace.Later : ConsolePlace → ConsolePlace → Prop
  | call {req : ConsRequest} {watch watch' : IssueWatch} {c : ConsCall}
      {k : c.Ans → ConsProg (Option ConsReply)} (a : c.Ans) :
      Later (.handler req watch' (k a)) (.handler req watch (.call c k))
  | ret {req : ConsRequest} {watch : IssueWatch} {rest : ConsProg (Option ConsReply)} :
      Later .idle (.handler req watch rest)
  | abend {req : ConsRequest} {watch : IssueWatch} {rest : ConsProg (Option ConsReply)} :
      Later .recovering (.handler req watch rest)
  | cleanup : Later .idle .recovering

/-- A request comes to its end. -/
theorem later_wf : WellFounded ConsolePlace.Later := by
  have hidle : Acc ConsolePlace.Later .idle := .intro _ fun _ h => by cases h
  have hrecovering : Acc ConsolePlace.Later .recovering := .intro _ fun _ h => by
    cases h
    exact hidle
  refine ⟨fun place => ?_⟩
  cases place with
  | idle => exact hidle
  | recovering => exact hrecovering
  | handler req watch rest =>
    induction rest generalizing watch with
    | ret r =>
      refine .intro _ fun _ h => ?_
      cases h with
      | ret => exact hidle
      | abend => exact hrecovering
    | call c k ih =>
      refine .intro _ fun _ h => ?_
      cases h with
      | call a => exact ih a _
      | ret => exact hidle
      | abend => exact hrecovering

/-- A worker in a request moves on in it, and nobody moves another. -/
theorem ConsoleStep.later {anchor : Bool} {w : ι} {s s' : ConsoleState ι}
    (hstep : ConsoleStep anchor w s s') :
    ((s.worker w).place ≠ .idle → (s'.worker w).place.Later (s.worker w).place) ∧
      ∀ v, v ≠ w → s'.worker v = s.worker v := by
  have hself (x : ConsoleWorker) : (Function.update s.worker w x w).place = x.place := by
    rw [Function.update_self]
  have hother (x : ConsoleWorker) (v : ι) (hv : v ≠ w) :
      Function.update s.worker w x v = s.worker v := Function.update_of_ne hv _ _
  cases hstep with
  | begin polls hreq hidle => exact ⟨fun hne => absurd hidle hne, hother _⟩
  | call a hplace ha =>
    refine ⟨fun _ => ?_, hother _⟩
    rw [ConsoleState.call, hself, hplace]
    exact .call a
  | ret hplace =>
    refine ⟨fun _ => ?_, hother _⟩
    rw [ConsoleState.set, hself, hplace]
    exact .ret
  | abend hplace =>
    refine ⟨fun _ => ?_, hother _⟩
    rw [ConsoleState.set, hself, hplace]
    exact .abend
  | cleanup hplace =>
    refine ⟨fun _ => ?_, hother _⟩
    have hidle : (s.worker w).cleanedUp.place = .idle := by
      rw [ConsoleWorker.cleanedUp]
      split <;> rfl
    rw [ConsoleState.cleanup, hself, hplace, hidle]
    exact .cleanup

omit [DecidableEq ι] in
/-- Every call can be answered. -/
theorem exists_answerable (holder : Option ι) (c : ConsCall) :
    ∃ a : c.Ans, Answerable holder ⟨c, a⟩ := by
  cases c
  case trylock => exact ⟨holder.isNone, Option.isNone_iff_eq_none⟩
  case capturePolls => exact ⟨[⟨true, none, false⟩], _, List.mem_cons_self, Or.inl rfl⟩
  case readRequestContent => exact ⟨.ok [], trivial⟩
  case mttSnap => exact ⟨none, trivial⟩
  case tod64 => exact ⟨(0 : UInt64), trivial⟩
  case todHi => exact ⟨(0 : UInt32), trivial⟩
  case consoleAuthorize | serverQuiescing | malloc | kvstore => exact ⟨true, trivial⟩
  all_goals exact ⟨(), trivial⟩

omit [DecidableEq ι] in
theorem ConsoleState.Inv.place_ne_idle {anchor : Bool} {s : ConsoleState ι} (h : s.Inv anchor)
    {w : ι} (hheld : s.holder = some w) : (s.worker w).place ≠ .idle := by
  intro hidle
  have hat := (h.ok w).place
  rw [ConsoleWorker.At, hidle] at hat
  exact Bool.false_ne_true (hat.symm.trans ((h.held w).mpr hheld))

/-- The owner of the lock is never stuck: it has a step of its handler or of the recovery. -/
theorem ConsoleState.Inv.moves {anchor : Bool} {s : ConsoleState ι} (h : s.Inv anchor) {w : ι}
    (hheld : s.holder = some w) :
    ∃ s', ConsoleStep anchor w s s' ∧ ((s.worker w).place = .recovering ∨
      (s'.worker w).place ≠ .recovering) := by
  have hne := h.place_ne_idle hheld
  cases hplace : (s.worker w).place with
  | idle => exact absurd hplace hne
  | recovering => exact ⟨_, .cleanup s hplace, Or.inl rfl⟩
  | handler req watch rest =>
    have hin := h.at hplace
    cases rest with
    | call c k =>
      obtain ⟨a, ha⟩ := exists_answerable s.holder c
      have hself : ((s.call w req watch ⟨c, a⟩ (k a)).worker w).place =
          .handler req (watch.next ⟨c, a⟩) (k a) :=
        congrArg ConsoleWorker.place (Function.update_self w _ s.worker)
      exact ⟨_, .call s a hplace ha, Or.inr fun hrec => by cases hself.symm.trans hrec⟩
    | ret r =>
      cases r with
      | some r =>
        have hself : ((s.set w { s.worker w with place := .idle }).worker w).place = .idle :=
          congrArg ConsoleWorker.place (Function.update_self w _ s.worker)
        exact ⟨_, .ret s hplace, Or.inr fun hrec => by cases hself.symm.trans hrec⟩
      | none =>
        have hfree : watch.held = false := (hin.obeys.open_ rfl).2 hin.endless
        have hlock := (h.held w).mpr hheld
        rw [← hin.held, hfree] at hlock
        cases hlock

/-- A run goes on step by step. -/
def Runs (anchor : Bool) (run : ℕ → ConsoleState ι) (who : ℕ → ι) : Prop :=
  ∀ n, ConsoleStep anchor (who n) (run n) (run (n + 1))

/-- In a run in which a worker keeps moving, it does not keep the lock. -/
theorem Runs.releases {anchor : Bool} {run : ℕ → ConsoleState ι} {who : ℕ → ι}
    (hrun : Runs anchor run who) (hinv : ∀ n, (run n).Inv anchor) {w : ι}
    (hfair : ∀ n, ∃ m, n ≤ m ∧ who m = w) : ∃ n, (run n).holder ≠ some w := by
  by_contra hno
  have hheld : ∀ n, (run n).holder = some w := by simpa using hno
  have hend : ∀ place : ConsolePlace, ∀ n, ((run n).worker w).place = place → False := by
    intro place
    induction place using later_wf.induction with
    | _ place ih =>
      intro n hplace
      obtain ⟨m, hm, hwho⟩ := hfair n
      obtain ⟨d, rfl⟩ := Nat.exists_eq_add_of_le hm
      -- until its next step the worker is left alone
      induction d generalizing n with
      | zero =>
        have hlater := (hrun n).later.1
        rw [show who n = w from hwho, hplace] at hlater
        exact ih _ (hlater (hplace ▸ (hinv n).place_ne_idle (hheld n))) (n + 1) rfl
      | succ d hd =>
        by_cases hn : who n = w
        · have hlater := (hrun n).later.1
          rw [hn, hplace] at hlater
          exact ih _ (hlater (hplace ▸ (hinv n).place_ne_idle (hheld n))) (n + 1) rfl
        · have hsame := (hrun n).later.2 w (Ne.symm hn)
          refine hd (n + 1) (by rw [hsame, hplace]) (by omega) ?_
          rwa [show n + 1 + d = n + (d + 1) by omega]
  exact hend _ 0 rfl

/-- The worker is between SVC 34 and the end of its capture. -/
def ConsoleWorker.Capturing (x : ConsoleWorker) : Prop :=
  ∃ req watch rest, x.place = .handler req watch rest ∧ watch.capturing = true

/-- **The console is serialised** in every run of any workers with abends anywhere: with an anchor one
worker at most is between SVC 34 and the end of its capture, and every command is issued under the
lock; no request both is refused the lock and issues a command; each worker acquires the lock and
gives it back in turn, holding it at no end of a request. The owner of the lock can always go on,
and gives it back in every run in which it does. -/
theorem console_serialised {anchor : Bool} {s : ConsoleState ι}
    (h : (consoleSystem ι anchor).Reach s) :
    (anchor = true → ∀ v w, (s.worker v).Capturing → (s.worker w).Capturing → v = w) ∧
    (anchor = true → ∀ w, IssuesLocked (s.worker w).trace) ∧
    (∀ w, NeverBoth (s.worker w).trace) ∧
    (∀ w, AcquiredReleased (decide (s.holder = some w)) (s.worker w).trace ∧
      ((s.worker w).place = .idle → s.holder ≠ some w)) ∧
    (∀ w, s.holder = some w → ∃ s', ConsoleStep anchor w s s' ∧
      ((s.worker w).place = .recovering ∨ (s'.worker w).place ≠ .recovering)) ∧
    ∀ run who w, run 0 = s → Runs anchor run who → (∀ n, ∃ m, n ≤ m ∧ who m = w) →
      ∃ n, (run n).holder ≠ some w := by
  have hinv := (consoleSystem_inv anchor).reach h
  refine ⟨fun ha v w hv hw => ?_, fun ha w => (hinv.ok w).issues ha, fun w => (hinv.ok w).both,
    fun w => ⟨?_, fun hidle heq => hinv.place_ne_idle heq hidle⟩, fun w => hinv.moves,
    fun run who w hstart hrun hfair => ?_⟩
  · have hheld : ∀ u, (s.worker u).Capturing → s.holder = some u := by
      rintro u ⟨req, watch, rest, hplace, hcapturing⟩
      have hin := hinv.at hplace
      exact (hinv.held u).mp (hin.held.symm.trans ((hin.capturing hcapturing).2 ha))
    exact Option.some.inj ((hheld v hv).symm.trans (hheld w hw))
  · have hlock : (s.worker w).lock = decide (s.holder = some w) := by
      rw [Bool.eq_iff_iff, decide_eq_true_iff]
      exact hinv.held w
    exact hlock ▸ (hinv.ok w).locks
  · refine hrun.releases (fun n => ?_) hfair
    induction n with
    | zero => rwa [hstart]
    | succ n ih => exact (hrun n).inv ih

/-- One worker has the lock for a display, and another is refused it for now. -/
theorem console_serialised_contended : ∃ s : ConsoleState Nat, s.holder = some 0 ∧
    AcquiredReleased true (s.worker 0).trace ∧ AcquiredReleased false (s.worker 1).trace ∧
    ∃ s', ConsoleStep true 0 s s' ∧
      ((s.worker 0).place = .recovering ∨ (s'.worker 0).place ≠ .recovering) := by
  have h₀ : (consoleSystem Nat true).Reach ⟨none, fun _ => ⟨.idle, false, []⟩⟩ := .init rfl
  have h₁ := h₀.step ⟨0, .begin _ 0 (show displayRequest.anchor = true from rfl) rfl⟩
  have h₂ := h₁.step ⟨1, .begin _ 0 (show displayRequest.anchor = true from rfl) rfl⟩
  have h₃ := h₂.step ⟨0, .call (c := .consoleAuthorize) _ true rfl trivial⟩
  have h₄ := h₃.step ⟨0, .call (c := .readRequestContent) _
    (.ok "\x7b\"cmd\":\"D A,L\"\x7d".toList) rfl trivial⟩
  have h₅ := h₄.step ⟨0, .call (c := .serverQuiescing) _ false rfl trivial⟩
  have h₆ := h₅.step ⟨0, .call (c := .trylock) _ true rfl (iff_of_true rfl rfl)⟩
  have h₇ := h₆.step ⟨1, .call (c := .consoleAuthorize) _ true rfl trivial⟩
  have h₈ := h₇.step ⟨1, .call (c := .readRequestContent) _
    (.ok "\x7b\"cmd\":\"D A,L\"\x7d".toList) rfl trivial⟩
  have h₉ := h₈.step ⟨1, .call (c := .serverQuiescing) _ false rfl trivial⟩
  have h := h₉.step ⟨1, .call (c := .trylock) _ false rfl
    (iff_of_false Bool.false_ne_true (Option.some_ne_none 0))⟩
  have hlaw := console_serialised h
  exact ⟨_, rfl, (hlaw.2.2.2.1 0).1, (hlaw.2.2.2.1 1).1, hlaw.2.2.2.2.1 0 rfl⟩

end Mvsmf
