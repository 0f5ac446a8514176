import Mathlib

/-!
# Check, then write

Requests for one content. Each takes a stamp of it, compares the stamp, and if it accepts the stamp
opens the content, writes and closes it; otherwise it is refused. Nothing holds the content between
these steps. A request that takes a stamp it accepts while another that did so is not done yet will
write over it; if none does, one request writes.
-/

universe u v w

namespace CheckWrite

variable {ι : Type u} {σ : Type v} {τ : Type w}

/-- What the requests are: the stamp of a content, the stamps a request accepts, and the content it
leaves behind. -/
structure Race (ι : Type u) (σ : Type v) (τ : Type w) where
  stamp : σ → τ
  accepts : ι → τ → Bool
  stored : ι → σ

inductive Phase (τ : Type w)
  | waiting
  | stamped (t : τ)
  | accepted
  | writing
  | stored
  | refused

/-- The content, where each request is, and which have written something. -/
structure State (ι : Type u) (σ : Type v) (τ : Type w) where
  content : σ
  phase : ι → Phase τ
  written : ι → Bool

namespace State

def init (c : σ) : State ι σ τ := ⟨c, fun _ => .waiting, fun _ => false⟩

variable [DecidableEq ι]

def goto (x : State ι σ τ) (i : ι) (p : Phase τ) : State ι σ τ :=
  { x with phase := Function.update x.phase i p }

/-- The request has the content open and has written some of it: what is there now is `c`. -/
def write (x : State ι σ τ) (i : ι) (c : σ) : State ι σ τ :=
  { x.goto i .writing with content := c, written := Function.update x.written i true }

def close (x : State ι σ τ) (i : ι) (c : σ) : State ι σ τ :=
  { x.goto i .stored with content := c }

@[simp] theorem goto_self (x : State ι σ τ) (i : ι) (p : Phase τ) : (x.goto i p).phase i = p :=
  Function.update_self _ _ _

theorem goto_other (x : State ι σ τ) {i j : ι} (p : Phase τ) (h : j ≠ i) :
    (x.goto i p).phase j = x.phase j := Function.update_of_ne h _ _

end State

/-- The request is on its way to a write: it has a stamp it accepts, or is past the comparison. -/
def Going (R : Race ι σ τ) (i : ι) : Phase τ → Prop
  | .stamped t => R.accepts i t = true
  | .accepted => True
  | .writing => True
  | _ => False

/-- A stamp that the request accepts is taken while no other request is on its way to a write. -/
def Alone (R : Race ι σ τ) (x : State ι σ τ) (i : ι) : Prop :=
  R.accepts i (R.stamp x.content) = true → ∀ j, j ≠ i → ¬ Going R j (x.phase j)

/-- One request at most is on its way to a write; where one has stored its content, the others have
written nothing, and the content is one that none accepts. -/
structure Exclusive (R : Race ι σ τ) (x : State ι σ τ) : Prop where
  one : ∀ i j, Going R i (x.phase i) → Going R j (x.phase j) → i = j
  stored : ∀ k, x.phase k = .stored →
    (∀ i, i ≠ k → ¬ Going R i (x.phase i) ∧ x.written i = false ∧ x.phase i ≠ .stored) ∧
    ∀ i, R.accepts i (R.stamp x.content) = false
  written : ∀ i, x.written i = true → x.phase i = .writing ∨ x.phase i = .stored

variable {R : Race ι σ τ} {x : State ι σ τ}

theorem Exclusive.init (c : σ) : Exclusive R (State.init c) where
  one := by
    intro i j hi
    exact hi.elim
  stored := by
    intro k hk
    simp [State.init] at hk
  written := by
    intro i hi
    simp [State.init] at hi

/-- While a request is on its way to a write, none has stored. -/
theorem Exclusive.none_stored (h : Exclusive R x) {i : ι} (hi : Going R i (x.phase i)) (k : ι) :
    x.phase k ≠ .stored := by
  intro hk
  have hik : i ≠ k := by
    rintro rfl
    rw [hk] at hi
    exact hi
  exact ((h.stored k hk).1 i hik).1 hi

section
variable [DecidableEq ι]

/-- One step of one request, every stamp taken where `ok` holds. What is stored by a close while
another request has the content open is not known. -/
inductive Step (R : Race ι σ τ) (ok : State ι σ τ → ι → Prop) : State ι σ τ → State ι σ τ → Prop
  | stamp (x : State ι σ τ) (i : ι) : x.phase i = .waiting → ok x i →
      Step R ok x (x.goto i (.stamped (R.stamp x.content)))
  | unreadable (x : State ι σ τ) (i : ι) : x.phase i = .waiting → Step R ok x (x.goto i .refused)
  | compare (x : State ι σ τ) (i : ι) (t : τ) : x.phase i = .stamped t →
      Step R ok x (x.goto i (if R.accepts i t then .accepted else .refused))
  | write (x : State ι σ τ) (i : ι) (c : σ) : x.phase i = .accepted ∨ x.phase i = .writing →
      Step R ok x (x.write i c)
  | close (x : State ι σ τ) (i : ι) (c : σ) : x.phase i = .writing →
      ((∀ j, j ≠ i → x.phase j ≠ .writing) → c = R.stored i) → Step R ok x (x.close i c)

inductive Reach (R : Race ι σ τ) (ok : State ι σ τ → ι → Prop) (c : σ) : State ι σ τ → Prop
  | init : Reach R ok c (State.init c)
  | step {x y : State ι σ τ} : Reach R ok c x → Step R ok x y → Reach R ok c y

theorem Reach.accept {ok : State ι σ τ → ι → Prop} {c : σ} (h : Reach R ok c x) {i : ι} {t : τ}
    (hi : x.phase i = .stamped t) (ht : R.accepts i t = true) : Reach R ok c (x.goto i .accepted) := by
  have hstep := @Step.compare ι σ τ _ R ok x i t hi
  rw [if_pos ht] at hstep
  exact h.step hstep

theorem Reach.refuse {ok : State ι σ τ → ι → Prop} {c : σ} (h : Reach R ok c x) {i : ι} {t : τ}
    (hi : x.phase i = .stamped t) (ht : ¬ R.accepts i t = true) : Reach R ok c (x.goto i .refused) := by
  have hstep := @Step.compare ι σ τ _ R ok x i t hi
  rw [if_neg ht] at hstep
  exact h.step hstep

/-- A request that moves on without a write, to a phase that is on the way to one only if no other
request is and none has stored. -/
theorem Exclusive.goto (h : Exclusive R x) {i : ι} {p : Phase τ} (hp : p ≠ .stored)
    (hi : x.phase i ≠ .writing ∧ x.phase i ≠ .stored)
    (hgoing : Going R i p → (∀ j, j ≠ i → ¬ Going R j (x.phase j)) ∧ ∀ k, x.phase k ≠ .stored) :
    Exclusive R (x.goto i p) where
  one := by
    intro j k hj hk
    by_cases hji : j = i
    · by_cases hki : k = i
      · rw [hji, hki]
      · subst hji
        rw [State.goto_self] at hj
        rw [State.goto_other x p hki] at hk
        exact absurd hk ((hgoing hj).1 k hki)
    · rw [State.goto_other x p hji] at hj
      by_cases hki : k = i
      · subst hki
        rw [State.goto_self] at hk
        exact absurd hj ((hgoing hk).1 j hji)
      · rw [State.goto_other x p hki] at hk
        exact h.one j k hj hk
  stored := by
    intro k hk
    have hki : k ≠ i := by
      rintro rfl
      rw [State.goto_self] at hk
      exact hp hk
    rw [State.goto_other x p hki] at hk
    obtain ⟨hothers, hcontent⟩ := h.stored k hk
    refine ⟨fun j hj => ?_, hcontent⟩
    by_cases hji : j = i
    · subst hji
      rw [State.goto_self]
      refine ⟨fun hg => (hgoing hg).2 k hk, (hothers j hj).2.1, hp⟩
    · rw [State.goto_other x p hji]
      exact hothers j hj
  written := by
    intro j hj
    have hold := h.written j hj
    have hji : j ≠ i := by
      rintro rfl
      rcases hold with hw | hs
      · exact hi.1 hw
      · exact hi.2 hs
    rw [State.goto_other x p hji]
    exact hold

theorem Exclusive.write (h : Exclusive R x) {i : ι} (hi : Going R i (x.phase i)) (c : σ) :
    Exclusive R (x.write i c) where
  one := by
    intro j k hj hk
    have hall : ∀ j, Going R j ((x.write i c).phase j) → j = i := by
      intro j hj
      by_contra hji
      rw [State.write, State.goto_other x _ hji] at hj
      exact hji (h.one j i hj hi)
    rw [hall j hj, hall k hk]
  stored := by
    intro k hk
    by_cases hki : k = i
    · subst hki
      simp [State.write] at hk
    · rw [State.write, State.goto_other x _ hki] at hk
      exact absurd hk (h.none_stored hi k)
  written := by
    intro j hj
    by_cases hji : j = i
    · subst hji
      exact Or.inl (State.goto_self _ _ _)
    · rw [State.write, State.goto_other x _ hji]
      have hold := (Function.update_of_ne hji _ _).symm.trans hj
      exact h.written j hold

theorem Exclusive.close (h : Exclusive R x) {i : ι} (hi : x.phase i = .writing) {c : σ}
    (hc : ∀ j, R.accepts j (R.stamp c) = false) : Exclusive R (x.close i c) := by
  have hgoing : Going R i (x.phase i) := by
    rw [hi]
    trivial
  have hothers : ∀ j, j ≠ i → ¬ Going R j (x.phase j) := fun j hj hg => hj (h.one j i hg hgoing)
  refine ⟨?_, ?_, ?_⟩
  · intro j k hj
    by_cases hji : j = i
    · subst hji
      rw [State.close, State.goto_self] at hj
      exact hj.elim
    · rw [State.close, State.goto_other x _ hji] at hj
      exact absurd hj (hothers j hji)
  · intro k hk
    have hki : k = i := by
      by_contra hki
      rw [State.close, State.goto_other x _ hki] at hk
      exact h.none_stored hgoing k hk
    subst hki
    refine ⟨fun j hj => ?_, hc⟩
    rw [State.close, State.goto_other x _ hj]
    refine ⟨hothers j hj, ?_, h.none_stored hgoing j⟩
    cases hw : x.written j with
    | false => exact hw
    | true =>
      rcases h.written j hw with hwriting | hstored
      · have := hothers j hj
        rw [hwriting] at this
        exact absurd trivial this
      · exact absurd hstored (h.none_stored hgoing j)
  · intro j hj
    by_cases hji : j = i
    · subst hji
      exact Or.inr (State.goto_self _ _ _)
    · rw [State.close, State.goto_other x _ hji]
      exact h.written j hj

theorem Exclusive.step {y : State ι σ τ} (h : Exclusive R x)
    (hstored : ∀ i j, R.accepts i (R.stamp (R.stored j)) = false) (hstep : Step R (Alone R) x y) :
    Exclusive R y := by
  cases hstep with
  | stamp i hi halone =>
    apply h.goto (by simp) (by simp [hi])
    intro haccepts
    refine ⟨halone haccepts, fun k hk => ?_⟩
    have hrefuses := (h.stored k hk).2 i
    rw [Going, hrefuses] at haccepts
    contradiction
  | unreadable i hi =>
    apply h.goto (by simp) (by simp [hi])
    exact False.elim
  | compare i t hi =>
    apply h.goto _ (by simp [hi])
    · intro hgo
      have hgoing : Going R i (x.phase i) := by
        rw [hi]
        by_contra hrefuses
        rw [Going, Bool.not_eq_true] at hrefuses
        rw [hrefuses] at hgo
        exact hgo
      exact ⟨fun j hj hg => hj (h.one j i hg hgoing), h.none_stored hgoing⟩
    · split
      · simp
      · simp
  | write i c hi =>
    apply h.write
    rcases hi with hi | hi
    · rw [hi]
      trivial
    · rw [hi]
      trivial
  | close i c hi hc =>
    apply h.close hi
    have hgoing : Going R i (x.phase i) := by
      rw [hi]
      trivial
    have hlast : ∀ j, j ≠ i → x.phase j ≠ .writing := by
      intro j hj hw
      apply hj
      apply h.one j i _ hgoing
      rw [hw]
      trivial
    rw [hc hlast]
    exact fun j => hstored j i

theorem Reach.exclusive {c : σ} (hstored : ∀ i j, R.accepts i (R.stamp (R.stored j)) = false)
    (h : Reach R (Alone R) c x) : Exclusive R x := by
  induction h with
  | init => exact .init c
  | step _ hstep ih => exact ih.step hstored hstep

end

end CheckWrite
