import Mvsmf.Lib.Prog
import Mathlib

/-!
# Sending a whole buffer

`send_bytes` offers the socket what is left of its buffer until all of it is taken. A send that takes
nothing is waited out, a number of times in a row, as long as the client is there and the server is
not stopping.
-/

namespace Mvsmf

/-- Sends in a row that take nothing. -/
def SEND_STALL_MAX : Nat := 100

/-- `SEND_OPS` -/
inductive SendOp where
  | send (bs : List UInt8)
  | pause
  | dead
  | stopping
  | giveup (stall : Nat)
  deriving DecidableEq

/-- A send fails, or takes some of what it is offered, perhaps nothing. -/
abbrev SendOp.Ans : SendOp → Type
  | .send bs => Option (Fin (bs.length + 1))
  | .pause => Unit
  | .dead => Bool
  | .stopping => Bool
  | .giveup _ => Unit

abbrev SendEvent := Prog.Event SendOp SendOp.Ans

/-- The loop, with what is left of the buffer and the sends in a row that took nothing. -/
def sendFrom (bs : List UInt8) (stall : Nat) : Prog SendOp SendOp.Ans Int :=
  if bs = [] then .ret 0
  else
    .call (.send bs) fun
      | none => .ret (-1)
      | some n =>
        if 0 < n.val then sendFrom (bs.drop n) 0
        else
          .call .dead fun
            | true => .ret (-1)
            | false =>
              .call .stopping fun
                | true => .ret (-1)
                | false =>
                  if SEND_STALL_MAX < stall + 1 then
                    .call (.giveup (stall + 1)) fun _ => .ret (-1)
                  else .call .pause fun _ => sendFrom bs (stall + 1)
termination_by (bs.length, SEND_STALL_MAX - stall)
decreasing_by
  · have := List.length_pos_iff.mpr ‹_›
    refine Prod.Lex.left _ _ ?_
    rw [List.length_drop]
    omega
  · refine Prod.Lex.right _ ?_
    omega

/-- `send_bytes`, with the `len` bytes of its buffer. -/
def sendBytes (buf : List UInt8) : Prog SendOp SendOp.Ans Int :=
  if buf = [] then .ret 0
  else
    .call .dead fun
      | true => .ret (-1)
      | false => sendFrom buf 0

/-! ## What is seen of a run -/

/-- The bytes the socket took. -/
def accepted : List SendEvent → List UInt8
  | [] => []
  | ⟨.send bs, some n⟩ :: t => bs.take n ++ accepted t
  | _ :: t => accepted t

/-- One more event behind `stall` pauses in a row. -/
def stallNext (stall : Nat) : SendEvent → Nat
  | ⟨.send _, some n⟩ => if 0 < n.val then 0 else stall
  | ⟨.pause, _⟩ => stall + 1
  | _ => stall

/-- The pauses since a send took something, with `stall` of them in front of the events. -/
def pausesFrom (stall : Nat) (t : List SendEvent) : Nat := t.foldl stallNext stall

def SendOp.isGiveup : SendOp → Bool
  | .giveup _ => true
  | _ => false

def giveups (t : List SendEvent) : Nat := t.countP (·.1.isGiveup)

/-- The last send took nothing, the client is there and the server goes on. -/
def Stalled (t : List SendEvent) : Prop :=
  ∃ bs, [⟨.send bs, some 0⟩, ⟨.dead, false⟩, ⟨.stopping, false⟩] <:+ t

/-! ## The loop -/

/-- What holds of the events of the loop, and of its result. -/
structure SendRun (bs : List UInt8) (stall : Nat) (t : List SendEvent) (rc : Int) : Prop where
  taken : accepted t <+: bs
  ok_iff : rc = 0 ↔ accepted t = bs
  pauses : ∀ p, p <+: t → pausesFrom stall p ≤ SEND_STALL_MAX
  giveups : giveups t ≤ 1
  giveup : ∀ p n, p ++ [⟨.giveup n, ()⟩] <+: t → pausesFrom stall p = SEND_STALL_MAX ∧ Stalled p

theorem Stalled.cons {t : List SendEvent} (h : Stalled t) (e : SendEvent) : Stalled (e :: t) := by
  obtain ⟨bs, hbs⟩ := h
  exact ⟨bs, hbs.trans (List.suffix_cons _ _)⟩

namespace SendRun

variable {bs : List UInt8} {stall : Nat} {t : List SendEvent} {rc : Int}

theorem done (hstall : stall ≤ SEND_STALL_MAX) : SendRun [] stall [] 0 where
  taken := List.prefix_rfl
  ok_iff := iff_of_true rfl rfl
  pauses p hp := by
    rw [List.prefix_nil.mp hp]
    exact hstall
  giveups := Nat.zero_le _
  giveup p n hp := by simp at hp

theorem failed (hbs : bs ≠ []) (hstall : stall ≤ SEND_STALL_MAX) : SendRun bs stall [] (-1) where
  taken := List.nil_prefix
  ok_iff := iff_of_false (by decide) fun h => hbs h.symm
  pauses p hp := by
    rw [List.prefix_nil.mp hp]
    exact hstall
  giveups := Nat.zero_le _
  giveup p n hp := by simp at hp

/-- An event that is no give-up. -/
theorem pauses_cons {e : SendEvent} (hstall : stall ≤ SEND_STALL_MAX)
    (h : ∀ p, p <+: t → pausesFrom (stallNext stall e) p ≤ SEND_STALL_MAX) :
    ∀ p, p <+: e :: t → pausesFrom stall p ≤ SEND_STALL_MAX := by
  intro p hp
  rcases List.prefix_cons_iff.mp hp with rfl | ⟨p, rfl, hrest⟩
  · exact hstall
  · exact h p hrest

theorem giveup_cons {e : SendEvent} (he : e.1.isGiveup = false)
    (h : ∀ p n, p ++ [⟨.giveup n, ()⟩] <+: t →
      pausesFrom (stallNext stall e) p = SEND_STALL_MAX ∧ Stalled p) :
    ∀ p n, p ++ [⟨.giveup n, ()⟩] <+: e :: t → pausesFrom stall p = SEND_STALL_MAX ∧ Stalled p := by
  intro p n hp
  cases p with
  | nil =>
    obtain rfl := (List.cons_prefix_cons.mp hp).1
    cases he
  | cons e' p =>
    obtain ⟨rfl, hrest⟩ := List.cons_prefix_cons.mp hp
    obtain ⟨hcount, hstalled⟩ := h p n hrest
    exact ⟨hcount, hstalled.cons _⟩

/-- An event that is no give-up and takes nothing. -/
theorem quiet {e : SendEvent} (he : e.1.isGiveup = false) (hstall : stall ≤ SEND_STALL_MAX)
    (htaken : accepted (e :: t) = accepted t) (h : SendRun bs (stallNext stall e) t rc) :
    SendRun bs stall (e :: t) rc where
  taken := by
    rw [htaken]
    exact h.taken
  ok_iff := by
    rw [htaken]
    exact h.ok_iff
  pauses := pauses_cons hstall h.pauses
  giveups := by
    rw [Mvsmf.giveups, List.countP_cons_of_neg (by simp [he])]
    exact h.giveups
  giveup := giveup_cons he h.giveup

/-- A send that takes something: the rest of the run is about the rest of the buffer. -/
theorem took {n : Fin (bs.length + 1)} (hn : 0 < n.val) (hstall : stall ≤ SEND_STALL_MAX)
    (h : SendRun (bs.drop n) 0 t rc) : SendRun bs stall (⟨.send bs, some n⟩ :: t) rc := by
  have hnext : stallNext stall ⟨.send bs, some n⟩ = 0 := if_pos hn
  refine ⟨?_, ?_, ?_, ?_, ?_⟩
  · have := (List.prefix_append_right_inj (bs.take n)).mpr h.taken
    rwa [List.take_append_drop] at this
  · have hsplit := List.take_append_drop n bs
    rw [h.ok_iff]
    constructor
    · intro hall
      rw [← hall] at hsplit
      exact hsplit
    · intro hall
      exact List.append_cancel_left (hall.trans hsplit.symm)
  · refine pauses_cons hstall ?_
    rw [hnext]
    exact h.pauses
  · rw [Mvsmf.giveups, List.countP_cons_of_neg (by simp [SendOp.isGiveup])]
    exact h.giveups
  · refine giveup_cons rfl ?_
    rw [hnext]
    exact h.giveup

/-- The budget is used up. -/
theorem gaveUp (hbs : bs ≠ []) (hstall : stall = SEND_STALL_MAX) :
    SendRun bs stall
      [⟨.send bs, some 0⟩, ⟨.dead, false⟩, ⟨.stopping, false⟩, ⟨.giveup (stall + 1), ()⟩] (-1) where
  taken := List.nil_prefix
  ok_iff := iff_of_false (by decide) fun h => hbs h.symm
  pauses := by
    have hend : ∀ p, p <+: [(⟨.giveup (stall + 1), ()⟩ : SendEvent)] →
        pausesFrom stall p ≤ SEND_STALL_MAX := by
      refine pauses_cons hstall.le fun p hp => ?_
      rw [List.prefix_nil.mp hp]
      exact hstall.le
    exact pauses_cons hstall.le (pauses_cons hstall.le (pauses_cons hstall.le hend))
  giveups := Nat.le_refl 1
  giveup p n hp := by
    -- the give-up is the last event
    obtain ⟨r, hr⟩ := hp
    obtain rfl : p = [⟨.send bs, some 0⟩, ⟨.dead, false⟩, ⟨.stopping, false⟩] := by
      rcases p with _ | ⟨_, _ | ⟨_, _ | ⟨_, _ | ⟨_, p⟩⟩⟩⟩ <;> simp at hr
      obtain ⟨rfl, rfl, rfl, -⟩ := hr
      rfl
    exact ⟨hstall, bs, List.suffix_rfl⟩

end SendRun

theorem sendFrom_run (bs : List UInt8) (stall : Nat) (hstall : stall ≤ SEND_STALL_MAX) :
    (sendFrom bs stall).Every (SendRun bs stall) := by
  induction bs, stall using sendFrom.induct with
  | case1 stall =>
    rw [sendFrom, if_pos rfl]
    exact .done hstall
  | case2 bs stall hbs ihtook ihpause =>
    rw [sendFrom, if_neg hbs]
    rintro (_ | n)
    · exact .quiet rfl hstall rfl (.failed hbs hstall)
    · by_cases hn : 0 < n.val
      · simp only [hn, if_true]
        exact (ihtook n hn (Nat.zero_le _)).imp fun t rc h => h.took hn hstall
      · obtain rfl : n = 0 := Fin.ext (Nat.eq_zero_of_not_pos hn)
        have hsend : ∀ {t rc}, SendRun bs stall t rc → SendRun bs stall (⟨.send bs, some 0⟩ :: t) rc :=
          fun h => .quiet rfl hstall rfl h
        simp only [hn, if_false]
        rintro (_ | _)
        · rintro (_ | _)
          · by_cases hmax : SEND_STALL_MAX < stall + 1
            · rw [if_pos hmax]
              intro _
              exact .gaveUp hbs (by omega)
            · rw [if_neg hmax]
              intro _
              refine (ihpause 0 hmax (by omega)).imp fun t rc h => ?_
              have hpause : SendRun bs stall (⟨.pause, ()⟩ :: t) rc := .quiet rfl hstall rfl h
              exact hsend (.quiet rfl hstall rfl (.quiet rfl hstall rfl hpause))
          · exact hsend (.quiet rfl hstall rfl (.quiet rfl hstall rfl (.failed hbs hstall)))
        · exact hsend (.quiet rfl hstall rfl (.failed hbs hstall))

/-- Between two sends that take something there are at most `SEND_STALL_MAX` turns that wait, and a
turn has at most four events. -/
theorem sendFrom_length (bs : List UInt8) (stall : Nat) (hstall : stall ≤ SEND_STALL_MAX) :
    (sendFrom bs stall).Every fun t _ =>
      t.length ≤ 4 * (bs.length * (SEND_STALL_MAX + 1) + (SEND_STALL_MAX + 1 - stall)) := by
  induction bs, stall using sendFrom.induct with
  | case1 stall =>
    rw [sendFrom, if_pos rfl]
    exact Nat.zero_le _
  | case2 bs stall hbs ihtook ihpause =>
    have hroom : 4 ≤ 4 * (bs.length * (SEND_STALL_MAX + 1) + (SEND_STALL_MAX + 1 - stall)) := by omega
    rw [sendFrom, if_neg hbs]
    rintro (_ | n)
    · exact Nat.le_trans (Nat.le_add_left 1 3) hroom
    · by_cases hn : 0 < n.val
      · simp only [hn, if_true]
        refine (ihtook n hn (Nat.zero_le _)).imp fun t rc h => ?_
        have hle : (bs.drop n).length + 1 ≤ bs.length := by
          rw [List.length_drop]
          omega
        have hmul := Nat.mul_le_mul_right (SEND_STALL_MAX + 1) hle
        rw [Nat.add_mul, Nat.one_mul] at hmul
        rw [List.length_cons]
        omega
      · simp only [hn, if_false]
        rintro (_ | _)
        · rintro (_ | _)
          · by_cases hmax : SEND_STALL_MAX < stall + 1
            · rw [if_pos hmax]
              intro _
              exact hroom
            · rw [if_neg hmax]
              intro _
              refine (ihpause n hmax (by omega)).imp fun t rc h => ?_
              simp only [List.length_cons]
              omega
          · exact Nat.le_trans (Nat.le_add_left 3 1) hroom
        · exact Nat.le_trans (Nat.le_add_left 2 2) hroom

/-- **Sending.** Whatever the socket does, what it takes is a beginning of the buffer, and all of it
exactly if the result is 0. There are never more than `SEND_STALL_MAX` pauses without a send that
takes something between them, and a give-up only behind as many, when a further send took nothing
while the client is there and the server goes on. The events are bounded by the length of the
buffer. -/
theorem sendBytes_run (buf : List UInt8) :
    ∀ t rc, Prog.Run (sendBytes buf) t rc →
      accepted t <+: buf ∧ (rc = 0 ↔ accepted t = buf) ∧
        (∀ p, p <+: t → pausesFrom 0 p ≤ SEND_STALL_MAX) ∧ giveups t ≤ 1 ∧
        (∀ p n, p ++ [⟨.giveup n, ()⟩] <+: t → pausesFrom 0 p = SEND_STALL_MAX ∧ Stalled p) ∧
        t.length ≤ 4 * (buf.length + 1) * (SEND_STALL_MAX + 1) + 1 := by
  rw [← Prog.every_iff]
  have hfrom := (sendFrom_run buf 0 (Nat.zero_le _)).and (sendFrom_length buf 0 (Nat.zero_le _))
  rw [sendBytes]
  split
  · next hbuf =>
    subst hbuf
    have h := SendRun.done (Nat.zero_le SEND_STALL_MAX)
    exact ⟨h.taken, h.ok_iff, h.pauses, h.giveups, h.giveup, Nat.zero_le _⟩
  · next hbuf =>
    rintro (_ | _)
    · refine hfrom.imp fun t rc h => ?_
      have hrun : SendRun buf 0 (⟨.dead, false⟩ :: t) rc := .quiet rfl (Nat.zero_le _) rfl h.1
      refine ⟨hrun.taken, hrun.ok_iff, hrun.pauses, hrun.giveups, hrun.giveup, ?_⟩
      have hlen := h.2
      rw [List.length_cons, Nat.mul_assoc, Nat.add_mul, Nat.one_mul]
      omega
    · have hrun : SendRun buf 0 [⟨.dead, true⟩] (-1) :=
        .quiet rfl (Nat.zero_le _) rfl (.failed hbuf (Nat.zero_le _))
      refine ⟨hrun.taken, hrun.ok_iff, hrun.pauses, hrun.giveups, hrun.giveup, ?_⟩
      exact Nat.le_add_left 1 _

/-- A socket that takes the two bytes one at a time, and nothing in between. -/
theorem sendBytes_run_twoBytes :
    let t : List SendEvent := [⟨.dead, false⟩, ⟨.send [1, 2], some 1⟩, ⟨.send [2], some 0⟩,
      ⟨.dead, false⟩, ⟨.stopping, false⟩, ⟨.pause, ()⟩, ⟨.send [2], some 1⟩]
    Prog.Run (sendBytes [1, 2]) t 0 ∧ accepted t = [1, 2] ∧
      (∀ p, p <+: t → pausesFrom 0 p ≤ SEND_STALL_MAX) ∧ giveups t ≤ 1 := by
  intro t
  have hrun : Prog.Run (sendBytes [1, 2]) t 0 := by
    rw [sendBytes, if_neg nofun]
    refine .call ?_
    show Prog.Run (sendFrom [1, 2] 0) _ 0
    rw [sendFrom, if_neg nofun]
    refine .call ?_
    show Prog.Run (sendFrom [2] 0) _ 0
    rw [sendFrom, if_neg nofun]
    refine .call (.call (.call (.call ?_)))
    show Prog.Run (sendFrom [2] 1) _ 0
    rw [sendFrom, if_neg nofun]
    refine .call ?_
    show Prog.Run (sendFrom [] 0) _ 0
    rw [sendFrom, if_pos rfl]
    exact .ret
  obtain ⟨-, hok, hpauses, hgiveups, -⟩ := sendBytes_run [1, 2] t 0 hrun
  exact ⟨hrun, hok.mp rfl, hpauses, hgiveups⟩

end Mvsmf
