import Mvsmf.Console.DetectRun
import Mvsmf.Console.IssueHandler
import Mvsmf.Lib.Monitor

/-!
# The anchor of a request, as the handler takes it

Here the request is `consoleIssueHandler`, one call at a time, and a copy of the table is answered
with the entries that are in it. What the handler does between the other tasks is what
`DetectStep` lets a request do, and the detection that it stores has the anchor it took.
-/

namespace Mvsmf

open Prog Prog.Monitor ConsProg

/-! ## Where the calls have come to -/

/-- What the calls of a handler have done about a detection of the keyword. -/
inductive ArmPlace
  | idle
  | read (keyword : List Char)
  | issued (keyword : List Char)
  | armed (keyword : List Char) (base : MttAnchor)
  | failed

/-- The keyword that a body asks for, in capitals. -/
def unsolKeyword (body : List Char) : List Char :=
  (jsonField body "unsol-key" 64).map Char.toUpper

namespace ArmPlace

def behindBody (p : ArmPlace) : Except BodyRc (List Char) → ArmPlace
  | .ok body => .read (unsolKeyword body)
  | .error _ => p

def behindCommand : ArmPlace → ArmPlace
  | .read keyword => .issued keyword
  | p => p

/-- The first copy of the table behind the command is for the anchor. -/
def behindSnap (snap : Option (List MtEntry)) : ArmPlace → ArmPlace
  | .issued keyword =>
    match mttDetectAnchor snap keyword with
    | some base => .armed keyword base
    | none => .failed
  | p => p

def next (p : ArmPlace) : ConsEvent → ArmPlace
  | ⟨.readRequestContent, body⟩ => p.behindBody body
  | ⟨.issueCommand _, _⟩ => p.behindCommand
  | ⟨.mttSnap, snap⟩ => p.behindSnap snap
  | _ => p

/-- A record under a detection key has the anchor. -/
def Allows (p : ArmPlace) : ConsCall → Prop
  | .readRequestContent => p = .idle
  | .issueCommand _ => ∃ keyword, p = .read keyword
  | .mttSnap => ∃ keyword, p = .issued keyword ∨ ∃ base, p = .armed keyword base
  | .ntSet name val => ∀ tod, name = detectionName tod → ∃ keyword base now secs,
      p = .armed keyword base ∧ val = detectionBytes ⟨now, secs, base, keyword⟩
  | _ => True

end ArmPlace

def armWatch : Monitor ConsCall ConsCall.Ans ArmPlace where
  next := ArmPlace.next
  allow := ArmPlace.Allows

/-- The detection is not touched. -/
def ConsCall.besides : ConsCall → Bool
  | .readRequestContent | .issueCommand _ | .mttSnap | .ntSet _ _ => false
  | _ => true

/-! ## What the handler does -/

section

variable {p : ArmPlace} {req : ConsRequest} {f : IssueFields} {keyword : List Char}

theorem besides_cons {c : ConsCall} (hc : c.besides = true) :
    armWatch.Keeps (· = p) (cons c) := by
  rintro _ rfl
  cases c
  case readRequestContent => cases hc
  case issueCommand => cases hc
  case mttSnap => cases hc
  case ntSet => cases hc
  all_goals exact ⟨trivial, fun _ => rfl⟩

theorem armWatch_frames : Frames armWatch (· = p) := by
  intro c hc
  refine besides_cons ?_
  cases c
  case readRequestContent => cases hc
  case issueCommand => cases hc
  case mttSnap => cases hc
  case ntSet => cases hc
  all_goals rfl

/-- A handler that has its anchor goes on copying the table. -/
theorem armed_snap (base : MttAnchor) :
    armWatch.Keeps (· = .armed keyword base) (cons .mttSnap) := by
  rintro _ rfl
  exact ⟨⟨keyword, Or.inr ⟨base, rfl⟩⟩, fun _ => rfl⟩

/-- Where a handler is that has `base` for its anchor. -/
def ArmPlace.HasAnchor (keyword : List Char) (base : Option MttAnchor) (p : ArmPlace) : Prop :=
  ∀ b, base = some b → p = .armed keyword b

theorem arms_armDetection (hp : p = .issued (f.unsolkey.map Char.toUpper)) :
    armWatch.Obeys p (armDetection f) fun p' r =>
      ∀ base, r = .ok base → p'.HasAnchor (f.unsolkey.map Char.toUpper) base := by
  subst hp
  rw [armDetection]
  split
  · rintro base ⟨⟩ b ⟨⟩
  · refine obeys_cons ⟨_, Or.inl rfl⟩ fun snap => ?_
    cases hanchor : mttDetectAnchor snap (f.unsolkey.map Char.toUpper) with
    | none => rintro base ⟨⟩
    | some base =>
      rintro _ ⟨⟩ b ⟨⟩
      change ArmPlace.behindSnap snap (.issued (f.unsolkey.map Char.toUpper)) = _
      simp only [ArmPlace.behindSnap, hanchor]

/-- A cursor is no detection. -/
theorem arms_storeCursor (tod : UInt64) (cur : SolCursor) :
    armWatch.Keeps (· = p) (storeCursor f tod cur) := by
  refine (besides_cons rfl).bind fun store => ?_
  cases store with
  | false => exact .ret _
  | true =>
    rintro _ rfl
    exact ⟨fun tod' h => absurd h (responseName_ne_detectionName tod tod'), fun _ => rfl⟩

theorem arms_storeDetection {base : MttAnchor} (tod : UInt64)
    (hp : p = .armed (f.unsolkey.map Char.toUpper) base) :
    armWatch.Obeys p (storeDetection req f base tod) fun _ _ => True := by
  refine obeys_cons trivial fun store => ?_
  cases store with
  | false => trivial
  | true =>
    refine obeys_cons trivial fun now => ?_
    exact ⟨fun tod' _ => ⟨_, base, now, _, hp, rfl⟩, fun _ => trivial⟩

theorem arms_detect {base : Option MttAnchor} (tod : UInt64) (polls : Nat)
    (hp : p.HasAnchor (f.unsolkey.map Char.toUpper) base) :
    armWatch.Obeys p (detect req f base tod polls) fun _ _ => True := by
  cases base with
  | none => trivial
  | some base =>
    have harmed := hp base rfl
    rw [detect]
    split
    · refine obeys_cons trivial fun start => obeys_bind.mpr ?_
      have hloop := armWatch_frames.keeps_detectLoop (armed_snap base) (besides_cons rfl)
        (f.unsolkey.map Char.toUpper) base f.timeout start polls p harmed
      exact hloop.imp fun _ _ _ => trivial
    · exact obeys_bind.mpr ((arms_storeDetection tod harmed).imp fun _ _ _ => trivial)

theorem arms_sendQuit (locked : Bool) (reply : ConsReply) :
    armWatch.Obeys p (sendQuit locked reply) fun _ _ => True :=
  (armWatch_frames.keeps_sendQuit locked reply p rfl).imp fun _ _ _ => trivial

theorem arms_answerIssued {base : Option MttAnchor} (tod : UInt64) (resp : List Char)
    (cur : SolCursor) (polls : Nat) (hp : p.HasAnchor (f.unsolkey.map Char.toUpper) base) :
    armWatch.Obeys p (answerIssued req f base tod resp cur polls) fun _ _ => True := by
  refine obeys_bind.mpr ((arms_storeCursor tod cur p rfl).imp ?_)
  rintro _ _ rfl
  refine obeys_bind.mpr ((arms_detect tod polls hp).imp ?_)
  rintro p' (_ | (e | detection)) -
  · trivial
  · exact arms_sendQuit false _
  · exact arms_sendQuit false _

theorem arms_afterIssue (locked : Bool) (polls : Nat)
    (hp : p = .issued (f.unsolkey.map Char.toUpper)) :
    armWatch.Obeys p (afterIssue req f locked polls) fun _ _ => True := by
  refine obeys_bind.mpr ((arms_armDetection hp).imp ?_)
  rintro p' (e | base) hbase
  · exact arms_sendQuit locked _
  · have hanchor := hbase base rfl
    refine obeys_cons trivial fun tod => obeys_cons trivial fun resp => ?_
    cases resp with
    | false => exact arms_sendQuit locked _
    | true =>
      refine obeys_cons trivial fun turns => ?_
      cases captureInto f.cmdUpper RESP_CAP [] none turns with
      | none => trivial
      | some r =>
        refine obeys_bind.mpr ((armWatch_frames.keeps_release locked p' rfl).imp ?_)
        rintro _ _ rfl
        split
        · exact arms_sendQuit false _
        · exact arms_sendQuit false _
        · exact arms_answerIssued tod _ _ polls hanchor

theorem arms_issueLocked (polls : Nat) (hp : p = .read (f.unsolkey.map Char.toUpper)) :
    armWatch.Obeys p (issueLocked req f polls) fun _ _ => True := by
  refine obeys_bind.mpr ((armWatch_frames.keeps_lockUnlessQuiescing req.anchor p rfl).imp ?_)
  rintro _ (locked | _ | _) rfl
  · refine obeys_cons ⟨_, hp⟩ fun _ => arms_afterIssue locked polls ?_
    rw [hp]
    rfl
  · exact arms_sendQuit false _
  · exact arms_sendQuit false _

/-- The fields are those of the body. -/
theorem issueFields_unsolkey {body : List Char} {f : IssueFields} (h : issueFields body = .ok f) :
    f.unsolkey = jsonField body "unsol-key" 64 := by
  unfold issueFields at h
  dsimp only at h
  repeat' split at h
  all_goals cases h
  rfl

/-- **The detection of a command.** The handler reads the keyword, issues the command, takes the
anchor from the first copy of the table behind it, and stores no detection but with that anchor. -/
theorem arms_consoleIssueHandler (req : ConsRequest) (polls : Nat) :
    armWatch.Obeys .idle (consoleIssueHandler req polls) fun _ _ => True := by
  refine obeys_cons trivial fun permitted => ?_
  cases permitted with
  | false => trivial
  | true =>
    rw [if_neg nofun]
    split
    · exact arms_sendQuit false _
    · refine obeys_cons rfl fun body => ?_
      cases body with
      | error rc => exact arms_sendQuit false _
      | ok body =>
        dsimp only
        split
        · exact arms_sendQuit false _
        · next f hf =>
          refine arms_issueLocked polls ?_
          rw [issueFields_unsolkey hf]
          rfl

end

/-! ## The handler between other tasks -/

/-- The entries that were written, how many have left the table, what is left of the handler, and
what it has stored, the latest first. -/
structure DetectHandled where
  log : List TimedEntry
  gone : Nat
  rest : ConsProg (Option ConsReply)
  stored : List (NtName × List UInt8)

/-- The body asks for the keyword, and a copy is of the table. -/
def DetectAnswer (keyword : List Char) (table : List TimedEntry) : ConsEvent → Prop
  | ⟨.readRequestContent, (body : Except BodyRc (List Char))⟩ =>
    ∀ b, body = .ok b → unsolKeyword b = keyword
  | ⟨.mttSnap, (snap : Option (List MtEntry))⟩ => ∀ arr, snap = some arr → arr = entriesOf table
  | _ => True

/-- What has been stored behind a call. -/
def storedBehind (stored : List (NtName × List UInt8)) : ConsEvent → List (NtName × List UInt8)
  | ⟨.ntSet name val, _⟩ => (name, val) :: stored
  | _ => stored

inductive DetectHandledStep (keyword : List Char) : DetectHandled → DetectHandled → Prop
  | write (x : DetectHandled) (e : TimedEntry) : (∀ f ∈ x.log, f.time ≤ e.time) →
      DetectHandledStep keyword x { x with log := x.log ++ [e] }
  | evict (x : DetectHandled) : x.gone < x.log.length →
      DetectHandledStep keyword x { x with gone := x.gone + 1 }
  | call (x : DetectHandled) {c : ConsCall} {k : c.Ans → ConsProg (Option ConsReply)} (a : c.Ans) :
      x.rest = .call c k → DetectAnswer keyword (x.log.drop x.gone) ⟨c, a⟩ →
      DetectHandledStep keyword x
        { x with rest := k a, stored := storedBehind x.stored ⟨c, a⟩ }

def detectHandledSystem (keyword : List Char) : System DetectHandled where
  init x := ∃ req polls, x = ⟨[], 0, consoleIssueHandler req polls, []⟩
  step := DetectHandledStep keyword

/-! ## Every run of the handler is one of the request -/

/-- The phase that goes with a place. -/
inductive ArmPlace.Shows (keyword : List Char) : ArmPlace → DetectPhase → Prop
  | idle : Shows keyword .idle .idle
  | read : Shows keyword (.read keyword) .idle
  | issued (handed : Nat) : Shows keyword (.issued keyword) (.issued handed)
  | armed (handed first seen : Nat) (base : MttAnchor) :
      Shows keyword (.armed keyword base) (.armed handed first seen base)
  | failed : Shows keyword .failed .failed

/-- What is stored under a detection key has the anchor that the phase has. -/
def DetectPhase.Stored (keyword : List Char) (stored : List (NtName × List UInt8))
    (phase : DetectPhase) : Prop :=
  ∀ tod val, (detectionName tod, val) ∈ stored → ∃ handed first seen base now secs,
    phase = .armed handed first seen base ∧ val = detectionBytes ⟨now, secs, base, keyword⟩

structure DetectHandled.Shown (keyword : List Char) (x : DetectHandled) (y : DetectState) :
    Prop where
  log : y.log = x.log
  gone : y.gone = x.gone
  place : ∃ p : ArmPlace, p.Shows keyword y.phase ∧ armWatch.Obeys p x.rest fun _ _ => True
  stored : y.phase.Stored keyword x.stored

section

variable {keyword : List Char} {x : DetectHandled} {y : DetectState}

/-- What a call does, the request does, in a step or in none. -/
theorem ArmPlace.Shows.call {p : ArmPlace} (h : p.Shows keyword y.phase)
    (hy : (detectSystem keyword).Reach y) {e : ConsEvent} (hallow : p.Allows e.1)
    (hanswer : DetectAnswer keyword y.table e) :
    ∃ y', (detectSystem keyword).Reach y' ∧ y'.log = y.log ∧ y'.gone = y.gone ∧
      (p.next e).Shows keyword y'.phase ∧
      (y'.phase = y.phase ∨ ∀ handed first seen base, y.phase ≠ .armed handed first seen base) := by
  obtain ⟨c, a⟩ := e
  cases c
  case readRequestContent =>
    obtain rfl : p = .idle := hallow
    generalize hphase : y.phase = phase at h
    cases h
    refine ⟨y, hy, rfl, rfl, ?_, Or.inl hphase⟩
    cases a with
    | error rc =>
      rw [hphase]
      exact .idle
    | ok body =>
      have hkeyword := hanswer body rfl
      rw [hphase, ← hkeyword]
      exact .read
  case issueCommand text =>
    obtain ⟨k, rfl⟩ := hallow
    generalize hphase : y.phase = phase at h
    cases h
    exact ⟨_, hy.step (.issue y hphase), rfl, rfl, .issued _, Or.inr fun _ _ _ _ => nofun⟩
  case mttSnap =>
    obtain ⟨k, rfl | ⟨base, rfl⟩⟩ := hallow
    · generalize hphase : y.phase = phase at h
      cases h with
      | issued handed =>
        have hunarmed : ∀ handed' first seen base,
            DetectPhase.issued handed ≠ .armed handed' first seen base := fun _ _ _ _ => nofun
        cases a with
        | none =>
          exact ⟨_, hy.step (.refuse y handed hphase rfl), rfl, rfl, .failed, Or.inr hunarmed⟩
        | some arr =>
          obtain rfl : arr = entriesOf y.table := hanswer arr rfl
          exact ⟨_, hy.step (.anchor y handed _ hphase rfl), rfl, rfl, .armed _ _ _ _,
            Or.inr hunarmed⟩
    · exact ⟨y, hy, rfl, rfl, h, Or.inl rfl⟩
  all_goals exact ⟨y, hy, rfl, rfl, h, Or.inl rfl⟩

theorem DetectPhase.Stored.call {p : ArmPlace} {phase : DetectPhase}
    {stored : List (NtName × List UInt8)} (h : phase.Stored keyword stored)
    (hshows : p.Shows keyword phase) {e : ConsEvent} (hallow : p.Allows e.1) :
    phase.Stored keyword (storedBehind stored e) := by
  obtain ⟨c, a⟩ := e
  cases c
  case ntSet name val =>
    intro tod val' hmem
    rcases List.mem_cons.mp hmem with heq | hmem
    · obtain ⟨hname, rfl⟩ := Prod.mk.inj heq
      obtain ⟨k, base, now, secs, rfl, rfl⟩ := hallow tod hname.symm
      cases hshows with
      | armed handed first seen => exact ⟨handed, first, seen, base, now, secs, rfl, rfl⟩
    · exact h tod val' hmem
  all_goals exact h

/-- While nothing is armed, nothing is stored, so another phase is as good. -/
theorem DetectPhase.Stored.of_unarmed {phase phase' : DetectPhase}
    {stored : List (NtName × List UInt8)} (h : phase.Stored keyword stored)
    (hphase : phase' = phase ∨
      ∀ handed first seen base, phase ≠ .armed handed first seen base) :
    phase'.Stored keyword stored := by
  rcases hphase with rfl | hunarmed
  · exact h
  · intro tod val hmem
    obtain ⟨handed, first, seen, base, -, -, harmed, -⟩ := h tod val hmem
    exact absurd harmed (hunarmed handed first seen base)

theorem DetectHandledStep.shown {x' : DetectHandled} (h : x.Shown keyword y)
    (hy : (detectSystem keyword).Reach y) (hstep : DetectHandledStep keyword x x') :
    ∃ y', (detectSystem keyword).Reach y' ∧ x'.Shown keyword y' := by
  cases hstep with
  | write e hle =>
    refine ⟨_, hy.step (.write y e (by rwa [h.log])), ?_, h.gone, h.place, h.stored⟩
    rw [h.log]
  | evict hlt =>
    refine ⟨_, hy.step (.evict y (by rwa [h.gone, h.log])), h.log, ?_, h.place, h.stored⟩
    rw [h.gone]
  | @call c k a hrest hanswer =>
    obtain ⟨p, hshows, hobeys⟩ := h.place
    rw [hrest] at hobeys
    obtain ⟨hallow, hnext⟩ := hobeys
    rw [← h.log, ← h.gone] at hanswer
    obtain ⟨y', hy', hlog, hgone, hshows', hphase⟩ :=
      hshows.call hy (e := ⟨c, a⟩) hallow hanswer
    exact ⟨y', hy', hlog.trans h.log, hgone.trans h.gone, ⟨_, hshows', hnext a⟩,
      (h.stored.call hshows (e := ⟨c, a⟩) hallow).of_unarmed hphase⟩

/-- **The handler keeps to the steps of a request.** Whatever the other tasks write and push out
between its calls, the log and the table are those of a run of the request, the handler is where the
request is, and a detection that it has stored has the anchor that the request has taken. -/
theorem detectHandled_shown (hx : (detectHandledSystem keyword).Reach x) :
    ∃ y, (detectSystem keyword).Reach y ∧ x.Shown keyword y := by
  induction hx with
  | init hinit =>
    obtain ⟨req, polls, rfl⟩ := hinit
    refine ⟨_, .init rfl, rfl, rfl, ⟨.idle, .idle, arms_consoleIssueHandler req polls⟩, ?_⟩
    exact fun _ _ hmem => absurd hmem (List.not_mem_nil)
  | step _ hstep ih =>
    obtain ⟨y, hy, h⟩ := ih
    exact hstep.shown h hy

end

end Mvsmf
