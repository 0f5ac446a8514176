import Mvsmf.Console.NtShared
import Mvsmf.Lib.System
import Mathlib

/-!
# The store in the context

The name/value store hangs off a block that httpd keeps for the program, and the first worker that
asks for it makes it: `mvsmf_kvstore` looks without the latch, and once more under it. Workers may ask
at any time, httpd may have no context for one, storage may be refused, and a worker may abend with the
latch held; still all that have a store work with one, as if it had been there from the start.
-/

namespace Mvsmf

/-! ## Workers -/

/-- The place of a worker: in `mvsmf_kvstore`, or with what it returned. `refused` is whether this
call was refused storage, `context` whether httpd had a context for it. -/
inductive ContextPc
  | idle
  | look
  | wait
  | second
  | obtain
  | fresh (b : Nat)
  | ready (b : Nat)
  | unlock (refused : Bool)
  | ret (refused : Bool)
  | without (context refused : Bool)
  | has (b : Nat)
  | calling (b : Nat) (c : NtCall)

/-- The store that a worker goes on with. -/
def ContextPc.store : ContextPc → Option Nat
  | .has b | .calling b _ => some b
  | _ => none

/-- The call that it waits with in front of the store's own latch. -/
def ContextPc.call : ContextPc → Option NtCall
  | .calling _ c => some c
  | _ => none

/-- `ctx->kvstore`, the blocks of storage that were obtained and what they hold, the owner of the
latch, the workers, and the clock. -/
structure ContextState where
  kvstore : Option Nat
  obtained : Nat
  blocks : Nat → NtStore
  holder : Option Nat
  pc : Nat → ContextPc
  clock : UInt64

def ContextState.goto (s : ContextState) (w : Nat) (pc : ContextPc) : ContextState :=
  { s with pc := Function.update s.pc w pc }

/-- One step of a worker or of the clock. New storage holds anything. A worker leaves at the end of its
request or where it abends, the latch still its own; the latch goes to one worker, or to the one that
has it from before an abend. -/
inductive ContextStep : ContextState → ContextState → Prop
  | tick (s : ContextState) (t : UInt64) : s.clock ≤ t → ContextStep s { s with clock := t }
  | ask (s : ContextState) (w : Nat) : s.pc w = .idle → ContextStep s (s.goto w .look)
  | noContext (s : ContextState) (w : Nat) : s.pc w = .idle →
      ContextStep s (s.goto w (.without false false))
  | look (s : ContextState) (w : Nat) : s.pc w = .look →
      ContextStep s (s.goto w (if s.kvstore = none then .wait else .ret false))
  | lock (s : ContextState) (w : Nat) : s.pc w = .wait → s.holder = none ∨ s.holder = some w →
      ContextStep s { s.goto w .second with holder := some w }
  | second (s : ContextState) (w : Nat) : s.pc w = .second →
      ContextStep s (s.goto w (if s.kvstore = none then .obtain else .unlock false))
  | refused (s : ContextState) (w : Nat) : s.pc w = .obtain →
      ContextStep s (s.goto w (.unlock true))
  | obtained (s : ContextState) (w : Nat) (anything : NtStore) : s.pc w = .obtain →
      ContextStep s { s.goto w (.fresh s.obtained) with
        obtained := s.obtained + 1
        blocks := Function.update s.blocks s.obtained anything }
  | storeInit (s : ContextState) (w b : Nat) : s.pc w = .fresh b →
      ContextStep s { s.goto w (.ready b) with
        blocks := Function.update s.blocks b ntStoreInit }
  | publish (s : ContextState) (w b : Nat) : s.pc w = .ready b →
      ContextStep s { s.goto w (.unlock false) with kvstore := some b }
  | unlock (s : ContextState) (w : Nat) (refused : Bool) : s.pc w = .unlock refused →
      ContextStep s { s.goto w (.ret refused) with holder := none }
  | ret (s : ContextState) (w : Nat) (refused : Bool) : s.pc w = .ret refused →
      ContextStep s (s.goto w (s.kvstore.elim (.without true refused) .has))
  | call (s : ContextState) (w b : Nat) (op : NtOp) : s.pc w = .has b →
      ContextStep s (s.goto w (.calling b ⟨op, s.clock⟩))
  | latch (s : ContextState) (w b : Nat) (c : NtCall) : s.pc w = .calling b c →
      ContextStep s { s.goto w (.has b) with
        blocks := Function.update s.blocks b (ntStep (s.blocks b) c).1 }
  | leave (s : ContextState) (w : Nat) : (s.pc w).call = none → ContextStep s (s.goto w .idle)

/-- The context is zeros when httpd makes it. -/
def contextSystem : System ContextState where
  init s := s.kvstore = none ∧ s.holder = none ∧ ∀ w, s.pc w = .idle
  step := ContextStep

/-! ## One store -/

/-- What is known of a worker by its place. -/
def ContextState.Fits (s : ContextState) (w : Nat) : ContextPc → Prop
  | .idle | .look | .wait => True
  | .second => s.holder = some w
  | .obtain | .fresh _ => s.holder = some w ∧ s.kvstore = none
  | .ready b => s.holder = some w ∧ s.kvstore = none ∧ s.blocks b = ntStoreInit
  | .unlock refused => s.holder = some w ∧ (s.kvstore = none → refused = true)
  | .ret refused => s.kvstore = none → refused = true
  | .without context refused => context = false ∨ refused = true
  | .has b | .calling b _ => s.kvstore = some b

def ContextState.Inv (s : ContextState) : Prop := ∀ w, s.Fits w (s.pc w)

theorem ContextState.Inv.fits {s : ContextState} (h : s.Inv) {w : Nat} {pc : ContextPc}
    (hpc : s.pc w = pc) : s.Fits w pc := hpc ▸ h w

/-- A step of another worker: the context keeps its store, and one that holds the latch finds all as
it was. -/
structure ContextState.Leaves (s s' : ContextState) (w : Nat) : Prop where
  keeps : ∀ b, s.kvstore = some b → s'.kvstore = some b
  holds : s.holder = some w → s'.holder = some w ∧ s'.kvstore = s.kvstore ∧
    (s.kvstore = none → s'.blocks = s.blocks)

theorem ContextState.Fits.leaves {s s' : ContextState} {w : Nat} {pc : ContextPc}
    (h : s.Fits w pc) (hleaves : s.Leaves s' w) : s'.Fits w pc := by
  obtain ⟨hkeeps, hholds⟩ := hleaves
  have hnone : s'.kvstore = none → s.kvstore = none := by
    intro h'
    cases hkv : s.kvstore with
    | none => rfl
    | some b => exact absurd (h'.symm.trans (hkeeps b hkv)) (Option.some_ne_none b).symm
  cases pc with
  | idle => trivial
  | look => trivial
  | wait => trivial
  | second => exact (hholds h).1
  | obtain =>
    obtain ⟨hheld, hkv, -⟩ := hholds h.1
    exact ⟨hheld, hkv.trans h.2⟩
  | fresh b =>
    obtain ⟨hheld, hkv, -⟩ := hholds h.1
    exact ⟨hheld, hkv.trans h.2⟩
  | ready b =>
    obtain ⟨hheld, hkv, hblocks⟩ := hholds h.1
    exact ⟨hheld, hkv.trans h.2.1, hblocks h.2.1 ▸ h.2.2⟩
  | unlock refused => exact ⟨(hholds h.1).1, fun h' => h.2 (hnone h')⟩
  | ret refused => exact fun h' => h (hnone h')
  | without context refused => exact h
  | has b => exact hkeeps b h
  | calling b c => exact hkeeps b h

/-- A step of one worker keeps the invariant if it fits its new place and leaves the others. -/
theorem ContextState.Inv.goto {s s' : ContextState} (h : s.Inv) {w : Nat} {pc : ContextPc}
    (hpc : s'.pc = Function.update s.pc w pc) (hfits : s'.Fits w pc)
    (hleaves : ∀ w', w' ≠ w → s.Leaves s' w') : s'.Inv := by
  intro w'
  rw [hpc]
  by_cases hw : w' = w
  · rw [hw, Function.update_self]
    exact hfits
  · rw [Function.update_of_ne hw]
    exact (h w').leaves (hleaves w' hw)

/-- Where the latch is this worker's, there is no other to leave. -/
theorem ContextState.Leaves.alone {s s' : ContextState} {w w' : Nat} (hw : w' ≠ w)
    (hheld : s.holder = some w) (hkeeps : ∀ b, s.kvstore = some b → s'.kvstore = some b) :
    s.Leaves s' w' :=
  ⟨hkeeps, fun h => absurd (Option.some.inj (h.symm.trans hheld)) hw⟩

theorem ContextState.Leaves.same {s s' : ContextState} {w : Nat} (hholder : s'.holder = s.holder)
    (hkv : s'.kvstore = s.kvstore) (hblocks : s'.blocks = s.blocks) : s.Leaves s' w :=
  ⟨fun _ h => hkv.trans h, fun h => ⟨hholder.trans h, hkv, fun _ => hblocks⟩⟩

theorem contextInv_step {s s' : ContextState} (h : s.Inv) (hstep : ContextStep s s') : s'.Inv := by
  have hsame : ∀ w pc, (s.goto w pc).Fits w pc → (s.goto w pc).Inv := fun w pc hfits =>
    h.goto rfl hfits fun _ _ => .same rfl rfl rfl
  cases hstep with
  | tick t ht => exact fun w => (h w).leaves (.same rfl rfl rfl)
  | ask w hpc => exact hsame w _ trivial
  | noContext w hpc => exact hsame w _ (.inl rfl)
  | look w hpc =>
    refine hsame w _ ?_
    split
    · trivial
    · next hkv => exact fun h' => absurd h' hkv
  | lock w hpc hfree =>
    refine h.goto rfl rfl fun w' hw => ⟨fun _ h' => h', fun h' => ?_⟩
    rcases hfree with hfree | hfree
    · exact absurd (h'.symm.trans hfree) (Option.some_ne_none w')
    · exact absurd (Option.some.inj (h'.symm.trans hfree)) hw
  | second w hpc =>
    have hfits := h.fits hpc
    refine hsame w _ ?_
    split
    · next hkv => exact ⟨hfits, hkv⟩
    · next hkv => exact ⟨hfits, fun h' => absurd h' hkv⟩
  | refused w hpc =>
    have hfits := h.fits hpc
    exact hsame w _ ⟨hfits.1, fun _ => rfl⟩
  | obtained w anything hpc =>
    have hfits := h.fits hpc
    exact h.goto rfl hfits fun _ hw => .alone hw hfits.1 fun _ h' => h'
  | storeInit w b hpc =>
    have hfits := h.fits hpc
    exact h.goto rfl ⟨hfits.1, hfits.2, Function.update_self _ _ _⟩ fun _ hw =>
      .alone hw hfits.1 fun _ h' => h'
  | publish w b hpc =>
    have hfits := h.fits hpc
    have hmade : some b = none → false = true := fun h' => absurd h' (Option.some_ne_none b)
    refine h.goto rfl ⟨hfits.1, hmade⟩ fun _ hw => .alone hw hfits.1 fun b' h' => ?_
    exact absurd (h'.symm.trans hfits.2.1) (Option.some_ne_none b')
  | unlock w refused hpc =>
    have hfits := h.fits hpc
    exact h.goto rfl hfits.2 fun _ hw => .alone hw hfits.1 fun _ h' => h'
  | ret w refused hpc =>
    have hfits := h.fits hpc
    refine hsame w _ ?_
    cases hkv : s.kvstore with
    | none => exact .inr (hfits hkv)
    | some b => exact hkv
  | call w b op hpc =>
    have hfits := h.fits hpc
    exact hsame w _ hfits
  | latch w b c hpc =>
    have hfits := h.fits hpc
    have hkv : s.kvstore = some b := hfits
    refine h.goto rfl hfits fun _ _ => ⟨fun _ h' => h', fun h' => ⟨h', rfl, fun hnone => ?_⟩⟩
    exact absurd (hnone.symm.trans hkv) (Option.some_ne_none b).symm
  | leave w hcall => exact hsame w _ trivial

/-! ## As if it had been there -/

/-- The store that the workers share: an empty one until there is one. -/
def ContextState.shared (s : ContextState) : NtStore := s.kvstore.elim ntStoreInit s.blocks

/-- The workers with their calls, on the store that they share. -/
structure ContextState.Shows (s : ContextState) (x : NtShared) : Prop where
  store : x.store = s.shared
  clock : x.clock = s.clock
  pending : ∀ w, x.pending w = (s.pc w).call

/-- A step that is none of the shared store's. -/
theorem ContextState.Shows.stutter {s s' : ContextState} {x : NtShared} (h : s.Shows x) {w : Nat}
    {pc : ContextPc} (hpc : s'.pc = Function.update s.pc w pc) (hcall : pc.call = (s.pc w).call)
    (hshared : s'.shared = s.shared) (hclock : s'.clock = s.clock) : s'.Shows x := by
  refine ⟨h.store.trans hshared.symm, h.clock.trans hclock.symm, fun w' => ?_⟩
  rw [h.pending, hpc]
  by_cases hw : w' = w
  · rw [hw, Function.update_self, hcall]
  · rw [Function.update_of_ne hw]

/-- Every step is one of the shared store or changes nothing of it. -/
theorem contextShows_step {s s' : ContextState} (hinv : s.Inv) {x : NtShared} (h : s.Shows x)
    (hstep : ContextStep s s') : s'.Shows x ∨ ∃ x', NtStep (fun _ _ => True) x x' ∧ s'.Shows x' := by
  have hsame : ∀ w pc, pc.call = (s.pc w).call → (s.goto w pc).Shows x := fun w pc hcall =>
    h.stutter rfl hcall rfl rfl
  cases hstep with
  | tick t ht =>
    refine .inr ⟨_, .tick x t (h.clock ▸ ht), h.store, rfl, h.pending⟩
  | ask w hpc => exact .inl (hsame w _ (hpc ▸ rfl))
  | noContext w hpc => exact .inl (hsame w _ (hpc ▸ rfl))
  | look w hpc =>
    refine .inl (hsame w _ ?_)
    rw [hpc]
    split <;> rfl
  | lock w hpc hfree => exact .inl (h.stutter rfl (hpc ▸ rfl) rfl rfl)
  | second w hpc =>
    refine .inl (hsame w _ ?_)
    rw [hpc]
    split <;> rfl
  | refused w hpc => exact .inl (hsame w _ (hpc ▸ rfl))
  | obtained w anything hpc =>
    have hfits := hinv.fits hpc
    refine .inl (h.stutter rfl (hpc ▸ rfl) ?_ rfl)
    simp only [ContextState.shared, ContextState.goto, hfits.2, Option.elim_none]
  | storeInit w b hpc =>
    have hfits := hinv.fits hpc
    refine .inl (h.stutter rfl (hpc ▸ rfl) ?_ rfl)
    simp only [ContextState.shared, ContextState.goto, hfits.2, Option.elim_none]
  | publish w b hpc =>
    -- the block is empty when it is made known
    have hfits := hinv.fits hpc
    refine .inl (h.stutter rfl (hpc ▸ rfl) ?_ rfl)
    simp only [ContextState.shared, ContextState.goto, hfits.2.1, Option.elim_none,
      Option.elim_some, hfits.2.2]
  | unlock w refused hpc => exact .inl (h.stutter rfl (hpc ▸ rfl) rfl rfl)
  | ret w refused hpc =>
    refine .inl (hsame w _ ?_)
    rw [hpc]
    cases s.kvstore <;> rfl
  | call w b op hpc =>
    have hnone : x.pending w = none := (h.pending w).trans (hpc ▸ rfl)
    refine .inr ⟨_, .call x w op hnone, h.store, h.clock, fun w' => ?_⟩
    change Function.update x.pending w _ w' = (Function.update s.pc w _ w').call
    by_cases hw : w' = w
    · rw [hw, Function.update_self, Function.update_self, h.clock]
      rfl
    · rw [Function.update_of_ne hw, Function.update_of_ne hw, h.pending]
  | latch w b c hpc =>
    have hkv : s.kvstore = some b := hinv.fits hpc
    have hstore : x.store = s.blocks b := by
      rw [h.store, ContextState.shared, hkv, Option.elim_some]
    have hcall : x.pending w = some c := (h.pending w).trans (hpc ▸ rfl)
    refine .inr ⟨_, .latch x w c hcall trivial, ?_, h.clock, fun w' => ?_⟩
    · simp only [NtShared.latch, ContextState.shared, ContextState.goto, hkv, Option.elim_some,
        Function.update_self, hstore]
    · change Function.update x.pending w _ w' = (Function.update s.pc w _ w').call
      by_cases hw : w' = w
      · rw [hw, Function.update_self, Function.update_self]
        rfl
      · rw [Function.update_of_ne hw, Function.update_of_ne hw, h.pending]
  | leave w hcall => exact .inl (hsame w _ hcall.symm)

theorem contextInv_reach {s : ContextState} (hs : contextSystem.Reach s) :
    s.Inv ∧ ∃ x, NtReach (fun _ _ => True) x ∧ s.Shows x := by
  have hinv : contextSystem.Invariant ContextState.Inv := by
    refine ⟨?_, contextInv_step⟩
    rintro s ⟨-, -, hidle⟩ w
    rw [hidle w]
    trivial
  refine (hinv.and (J := fun s => ∃ x, NtReach (fun _ _ => True) x ∧ s.Shows x) ?_ ?_).reach hs
  · rintro s ⟨hkv, -, hidle⟩
    refine ⟨NtShared.init s.clock, .init _, ?_, rfl, fun w => ?_⟩
    · rw [ContextState.shared, hkv]
      rfl
    · rw [hidle w]
      rfl
  · rintro s s' hs ⟨x, hx, hshows⟩ hstep
    rcases contextShows_step hs hshows hstep with hshows' | ⟨x', hstep', hshows'⟩
    · exact ⟨x, hx, hshows'⟩
    · exact ⟨x', hx.step hstep', hshows'⟩

/-- Any number of workers, in any order of steps, with storage refused and with abends: two workers
that have a store have the same one, which the context has and never gives up; a worker is without one
only if httpd had no context for it or storage was refused to it; and what they do on it is a run of the
store that was there, empty, from the start. -/
theorem kvstore_shared {s : ContextState} (hs : contextSystem.Reach s) :
    (∀ w b, (s.pc w).store = some b → s.kvstore = some b) ∧
    (∀ s' b, ContextStep s s' → s.kvstore = some b → s'.kvstore = some b) ∧
    (∀ w context refused, s.pc w = .without context refused → context = false ∨ refused = true) ∧
    ∃ x, NtReach (fun _ _ => True) x ∧ s.Shows x := by
  obtain ⟨hinv, hshows⟩ := contextInv_reach hs
  refine ⟨fun w b hb => ?_, fun s' b hstep hb => ?_, fun w context refused hpc => ?_,
    hshows⟩
  · have hfits := hinv w
    cases hpc : s.pc w <;> rw [hpc] at hb hfits
    case has => exact hfits.trans hb
    case calling => exact hfits.trans hb
    all_goals cases hb
  · cases hstep
    case publish w b' hpc =>
      have hfits := hinv.fits hpc
      exact absurd (hb.symm.trans hfits.2.1) (Option.some_ne_none b)
    all_goals exact hb
  · exact hinv.fits hpc

/-- The first worker of an address space has made the store. -/
theorem kvstore_shared_first : ∃ s : ContextState, s.pc 0 = .has 0 ∧ s.kvstore = some 0 := by
  have h₀ : contextSystem.Reach ⟨none, 0, fun _ => ntStoreInit, none, fun _ => .idle, 0⟩ :=
    .init ⟨rfl, rfl, fun _ => rfl⟩
  have h₁ := h₀.step (.ask _ 0 rfl)
  have h₂ := h₁.step (.look _ 0 rfl)
  have h₃ := h₂.step (.lock _ 0 rfl (.inl rfl))
  have h₄ := h₃.step (.second _ 0 rfl)
  have h₅ := h₄.step (.obtained _ 0 ntStoreInit rfl)
  have h₆ := h₅.step (.storeInit _ 0 0 rfl)
  have h₇ := h₆.step (.publish _ 0 0 rfl)
  have h₈ := h₇.step (.unlock _ 0 false rfl)
  have h₉ := h₈.step (.ret _ 0 false rfl)
  exact ⟨_, rfl, (kvstore_shared h₉).1 0 0 rfl⟩

end Mvsmf
