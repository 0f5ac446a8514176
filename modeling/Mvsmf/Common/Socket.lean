import Mvsmf.Common.BodyBlocks

/-!
# The socket below `recv`

`receive_raw_data` asks the socket for one byte after the other and waits out a socket that has none,
a number of times in a row. Bytes that come with such waits between them come to `read_body` in one
piece (`sockRecv_delivers`), whatever else the socket does.
-/

namespace Mvsmf

/-- What the socket answers a `recv()` of one byte; it is closed behind the last answer. -/
inductive SockAnswer
  | byte (b : UInt8)
  | interrupted
  | wouldBlock
  | failed
  deriving DecidableEq, Repr

/-- Waits in a row. -/
def RAW_RECV_MAX_RETRIES : Nat := 200

/-- `receive_raw_data` with `len` bytes to come behind those in hand; nothing for -1. -/
def receiveRawFrom : List SockAnswer → Nat → Nat → List UInt8 → List UInt8 × List SockAnswer
  | [], _, _, buf => (buf, [])
  | a :: sock, 0, _, buf => (buf, a :: sock)
  | .byte b :: sock, len + 1, _, buf => receiveRawFrom sock len 0 (buf ++ [b])
  | .interrupted :: sock, len + 1, retries, buf => receiveRawFrom sock (len + 1) retries buf
  | .wouldBlock :: sock, len + 1, retries, buf =>
    if RAW_RECV_MAX_RETRIES < retries + 1 then ([], sock)
    else receiveRawFrom sock (len + 1) (retries + 1) buf
  | .failed :: sock, _ + 1, _, _ => ([], sock)

theorem receiveRawFrom_zero (sock : List SockAnswer) (retries : Nat) (buf : List UInt8) :
    receiveRawFrom sock 0 retries buf = (buf, sock) := by
  cases sock <;> rfl

theorem receiveRawFrom_length (sock : List SockAnswer) (len retries : Nat) (buf : List UInt8) :
    (receiveRawFrom sock len retries buf).1.length ≤ buf.length + len ∧
      (receiveRawFrom sock len retries buf).2.length ≤ sock.length ∧
      (sock ≠ [] → len ≠ 0 → (receiveRawFrom sock len retries buf).2.length < sock.length) := by
  fun_induction receiveRawFrom sock len retries buf with
  | case1 => simp
  | case2 => simp
  | case3 _ _ _ _ _ ih =>
    simp only [List.length_append, List.length_cons, List.length_nil] at ih ⊢
    exact ⟨by omega, by omega, fun _ _ => by omega⟩
  | case4 => simp; omega
  | case5 => simp
  | case6 => simp; omega
  | case7 => simp

/-- `body_op_recv`. -/
def sockRecv : BodyRecv (List SockAnswer) where
  recv sock len := receiveRawFrom sock len 0 []
  left := List.length
  recv_le sock len := by
    have h := (receiveRawFrom_length sock len 0 []).1
    rwa [List.length_nil, Nat.zero_add] at h
  recv_lt sock len h := by
    refine (receiveRawFrom_length sock len 0 []).2.2 ?_ ?_
    · rintro rfl
      exact h rfl
    · rintro rfl
      rw [receiveRawFrom_zero] at h
      exact h rfl
  left_le sock len := (receiveRawFrom_length sock len 0 []).2.1

/-- Bytes with waits in front of each that are not given up. -/
inductive Arrives : List SockAnswer → List UInt8 → List SockAnswer → Prop
  | done (sock : List SockAnswer) : Arrives sock [] sock
  | byte {waits sock rest : List SockAnswer} {b : UInt8} {bytes : List UInt8}
      (hwaits : ∀ a ∈ waits, a = .interrupted ∨ a = .wouldBlock)
      (hretries : waits.count .wouldBlock ≤ RAW_RECV_MAX_RETRIES) (h : Arrives sock bytes rest) :
      Arrives (waits ++ .byte b :: sock) (b :: bytes) rest

theorem receiveRawFrom_waits {waits : List SockAnswer}
    (hwaits : ∀ a ∈ waits, a = .interrupted ∨ a = .wouldBlock) (sock : List SockAnswer) (len : Nat)
    {retries : Nat} (hretries : retries + waits.count .wouldBlock ≤ RAW_RECV_MAX_RETRIES)
    (buf : List UInt8) :
    receiveRawFrom (waits ++ sock) (len + 1) retries buf =
      receiveRawFrom sock (len + 1) (retries + waits.count .wouldBlock) buf := by
  induction waits generalizing retries with
  | nil => rfl
  | cons a waits ih =>
    have hrest : ∀ a ∈ waits, a = .interrupted ∨ a = .wouldBlock :=
      fun a ha => hwaits a (List.mem_cons_of_mem _ ha)
    rcases hwaits a List.mem_cons_self with rfl | rfl
    · rw [List.count_cons_of_ne (by decide)] at hretries ⊢
      exact ih hrest hretries
    · rw [List.count_cons_self, ← Nat.add_assoc, Nat.add_right_comm] at hretries ⊢
      rw [List.cons_append, receiveRawFrom, if_neg (by omega)]
      exact ih hrest hretries

theorem Arrives.receive {sock rest : List SockAnswer} {bytes : List UInt8}
    (h : Arrives sock bytes rest) {len : Nat} (hlen : len ≤ bytes.length) (buf : List UInt8) :
    ∃ sock', receiveRawFrom sock len 0 buf = (buf ++ bytes.take len, sock') ∧
      Arrives sock' (bytes.drop len) rest := by
  induction h generalizing len buf with
  | done sock =>
    obtain rfl : len = 0 := Nat.le_zero.mp hlen
    exact ⟨sock, by rw [receiveRawFrom_zero, List.take_nil, List.append_nil], .done sock⟩
  | @byte waits sock rest b bytes hwaits hretries h ih =>
    cases len with
    | zero =>
      exact ⟨_, by rw [receiveRawFrom_zero, List.take_zero, List.append_nil],
        .byte hwaits hretries h⟩
    | succ len =>
      obtain ⟨sock', hrest, harrives⟩ := ih (Nat.le_of_succ_le_succ hlen) (buf ++ [b])
      refine ⟨sock', ?_, harrives⟩
      rw [receiveRawFrom_waits hwaits _ _ (by rwa [Nat.zero_add]), receiveRawFrom, hrest,
        List.append_assoc]
      rfl

/-- The waits of the socket do not come to `read_body`. -/
theorem sockRecv_delivers {sock rest : List SockAnswer} {bytes : List UInt8}
    (h : Arrives sock bytes rest) : sockRecv.Delivers sock bytes rest := by
  generalize hn : bytes.length = n
  induction n using Nat.strongRecOn generalizing sock bytes with
  | _ n ih =>
    by_cases hbytes : bytes = []
    · subst hbytes
      cases h
      exact .done _
    · refine .more hbytes (fun k _ hk => ?_) fun k hpos hk => ?_
      · obtain ⟨sock', hgot, -⟩ := h.receive hk []
        exact congrArg Prod.fst hgot
      · obtain ⟨sock', hgot, hrest⟩ := h.receive hk []
        rw [show (sockRecv.recv sock k).2 = sock' from congrArg Prod.snd hgot]
        exact ih (n - k) (by omega) hrest (by rw [List.length_drop, hn])

end Mvsmf
