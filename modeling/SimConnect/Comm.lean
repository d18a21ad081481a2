import SimConnect.Packet
import Mathlib.Algebra.BigOperators.Group.Finset.Basic

/-!
# cxlcommlib.c: sending and receiving on a socket

`CXL_Send` repeats `send` until nothing is left to send; `CXL_Recv` calls `recv` once and hands its
result to the caller.
-/

namespace SimConnect

/-! ## Sending -/

/-- The result of one `send`.  `accept k` takes `min (k + 1) n` of the `n` bytes offered, which
ranges over all results between 1 and `n`, and is 0 when nothing is offered. -/
inductive SendOutcome
  | accept (k : ℕ)
  | fail
  deriving DecidableEq

def SendOutcome.ret : SendOutcome → ℕ → ℤ
  | .accept k, n => (min (k + 1) n : ℕ)
  | .fail, _ => -1

-- send never takes more than it is offered, so every successful send makes the rest shorter
theorem SendOutcome.ret_le (o : SendOutcome) (n : ℕ) : o.ret n ≤ n := by
  cases o with
  | accept k =>
      have h := Nat.min_le_right (k + 1) n
      simp only [SendOutcome.ret]
      omega
  | fail =>
      simp only [SendOutcome.ret]
      omega

structure SendRun where
  ret : ℤ
  accepted : List UInt8
  calls : ℕ

-- CXL_Send from its i-th call on, with `rest` still to go; `os` holds the results of the calls
def cxlSendFrom (os : ℕ → SendOutcome) (i : ℕ) (rest : List UInt8) : SendRun :=
  if h : 1 ≤ (os i).ret rest.length then
    let ret := ((os i).ret rest.length).toNat
    let run := cxlSendFrom os (i + 1) (rest.drop ret)
    { ret := run.ret, accepted := rest.take ret ++ run.accepted, calls := run.calls + 1 }
  else if (os i).ret rest.length = 0 then
    { ret := 1, accepted := [], calls := 1 }
  else
    { ret := -1, accepted := [], calls := 1 }
termination_by rest.length
decreasing_by
  have hle := (os i).ret_le rest.length
  rw [List.length_drop]
  omega

/-- `CXL_Send` (the socket calls never look at `waitflag`). -/
def cxlSend (os : ℕ → SendOutcome) (buf : List UInt8) : SendRun := cxlSendFrom os 0 buf

section CxlSend

variable (os : ℕ → SendOutcome) (i : ℕ) (rest : List UInt8)

theorem cxlSendFrom_fail (h : os i = .fail) :
    cxlSendFrom os i rest = { ret := -1, accepted := [], calls := 1 } := by
  rw [cxlSendFrom]
  simp [h, SendOutcome.ret]

theorem cxlSendFrom_nil {k : ℕ} (h : os i = .accept k) :
    cxlSendFrom os i [] = { ret := 1, accepted := [], calls := 1 } := by
  rw [cxlSendFrom]
  simp [h, SendOutcome.ret]

theorem cxlSendFrom_accept {k : ℕ} (h : os i = .accept k) (hr : rest ≠ []) :
    cxlSendFrom os i rest =
      { ret := (cxlSendFrom os (i + 1) (rest.drop (k + 1))).ret
        accepted := rest.take (k + 1) ++ (cxlSendFrom os (i + 1) (rest.drop (k + 1))).accepted
        calls := (cxlSendFrom os (i + 1) (rest.drop (k + 1))).calls + 1 } := by
  have hpos := List.length_pos_iff.mpr hr
  have htake : rest.take (min (k + 1) rest.length) = rest.take (k + 1) := by
    rw [← List.take_eq_take_min]
  have hdrop : rest.drop (min (k + 1) rest.length) = rest.drop (k + 1) := by
    by_cases hk : k + 1 ≤ rest.length
    · rw [Nat.min_eq_left hk]
    · rw [Nat.min_eq_right (by omega), List.drop_length, List.drop_of_length_le (by omega)]
  rw [cxlSendFrom]
  simp only [h, SendOutcome.ret, Int.toNat_natCast]
  rw [dif_pos (by omega), htake, hdrop]

-- the call returns 1 or -1, what it put out is a prefix, and 1 means that it is everything
theorem cxlSendFrom_spec :
    (cxlSendFrom os i rest).accepted <+: rest ∧
      ((cxlSendFrom os i rest).ret = 1 ∨ (cxlSendFrom os i rest).ret = -1) ∧
      ((cxlSendFrom os i rest).ret = 1 → (cxlSendFrom os i rest).accepted = rest) := by
  induction hn : rest.length using Nat.strong_induction_on generalizing i rest with
  | h n ih =>
      cases hos : os i with
      | fail =>
          rw [cxlSendFrom_fail os i rest hos]
          exact ⟨List.nil_prefix, Or.inr rfl, fun h => absurd h (by decide)⟩
      | accept k =>
          by_cases hr : rest = []
          · subst hr
            rw [cxlSendFrom_nil os i hos]
            exact ⟨List.nil_prefix, Or.inl rfl, fun _ => rfl⟩
          · have hpos := List.length_pos_iff.mpr hr
            obtain ⟨hpre, hret, hall⟩ := ih (rest.drop (k + 1)).length
              (by rw [List.length_drop]; omega) (i + 1) (rest.drop (k + 1)) rfl
            rw [cxlSendFrom_accept os i rest hos hr]
            refine ⟨?_, hret, fun h => ?_⟩
            · have h := (List.prefix_append_right_inj (rest.take (k + 1))).mpr hpre
              rwa [List.take_append_drop] at h
            · dsimp only at h ⊢
              rw [hall h, List.take_append_drop]

end CxlSend

theorem cxlSend_accepted_prefix (os : ℕ → SendOutcome) (buf : List UInt8) :
    (cxlSend os buf).accepted <+: buf :=
  (cxlSendFrom_spec os 0 buf).1

theorem cxlSend_ret (os : ℕ → SendOutcome) (buf : List UInt8) :
    (cxlSend os buf).ret = 1 ∨ (cxlSend os buf).ret = -1 :=
  (cxlSendFrom_spec os 0 buf).2.1

theorem cxlSend_accepted_of_ret (os : ℕ → SendOutcome) (buf : List UInt8)
    (h : (cxlSend os buf).ret = 1) : (cxlSend os buf).accepted = buf :=
  (cxlSendFrom_spec os 0 buf).2.2 h

/-! ## Which results of send give which end -/

-- the bytes that one send takes from a buffer that is long enough
def SendOutcome.takes : SendOutcome → ℕ
  | .accept k => k + 1
  | .fail => 0

-- from call i on, the sends take all of `size` bytes and the call after them fails
def LastSendFailsFrom (os : ℕ → SendOutcome) (i size : ℕ) : Prop :=
  ∃ n, os (i + n) = .fail ∧
    (∀ j < n, os (i + j) ≠ .fail ∧ ∑ k ∈ Finset.range j, (os (i + k)).takes < size) ∧
      size ≤ ∑ k ∈ Finset.range n, (os (i + k)).takes

/-- The sends take the whole buffer, and the call that is left with nothing to offer fails. -/
def LastSendFails (size : ℕ) (os : ℕ → SendOutcome) : Prop := LastSendFailsFrom os 0 size

section Outcomes

variable (os : ℕ → SendOutcome)

theorem outcome_shift (i j : ℕ) : os (i + (j + 1)) = os (i + 1 + j) := by
  rw [Nat.add_assoc, Nat.add_comm 1 j]

-- the first send takes k + 1 bytes, the others the rest of the sum
theorem takes_sum_succ {i k : ℕ} (hi : os i = .accept k) (n : ℕ) :
    ∑ j ∈ Finset.range (n + 1), (os (i + j)).takes =
      k + 1 + ∑ j ∈ Finset.range n, (os (i + 1 + j)).takes := by
  rw [Finset.sum_range_succ', Nat.add_zero, hi, SendOutcome.takes, Nat.add_comm]
  simp only [outcome_shift]

theorem cxlSendFrom_accepted_take (i n : ℕ) (rest : List UInt8) (hfail : os (i + n) = .fail)
    (hok : ∀ j < n, os (i + j) ≠ .fail)
    (hlt : ∑ j ∈ Finset.range n, (os (i + j)).takes < rest.length) :
    (cxlSendFrom os i rest).accepted =
      rest.take (∑ j ∈ Finset.range n, (os (i + j)).takes) := by
  induction n generalizing i rest with
  | zero =>
      rw [cxlSendFrom_fail os i rest hfail, Finset.sum_range_zero, List.take_zero]
  | succ n ih =>
      cases hi : os i with
      | fail => exact absurd hi (hok 0 (Nat.succ_pos n))
      | accept k =>
          have hr : rest ≠ [] := by
            intro hnil
            rw [hnil] at hlt
            exact absurd hlt (Nat.not_lt_zero _)
          rw [takes_sum_succ os hi] at hlt ⊢
          have hdrop := ih (i + 1) (rest.drop (k + 1)) (by rw [← outcome_shift os, hfail])
            (fun j hj => by rw [← outcome_shift os]; exact hok (j + 1) (Nat.succ_lt_succ hj))
            (by rw [List.length_drop]; omega)
          rw [cxlSendFrom_accept os i rest hi hr]
          dsimp only
          rw [hdrop]
          exact List.take_add.symm

theorem cxlSendFrom_accepted_or (i : ℕ) (rest : List UInt8) :
    (cxlSendFrom os i rest).accepted = rest ∨
      ∃ n, os (i + n) = .fail ∧ (∀ j < n, os (i + j) ≠ .fail) ∧
        ∑ j ∈ Finset.range n, (os (i + j)).takes < rest.length := by
  induction hn : rest.length using Nat.strong_induction_on generalizing i rest with
  | h size ih =>
      by_cases hr : rest = []
      · subst hr
        exact Or.inl (List.prefix_nil.mp (cxlSendFrom_spec os i []).1)
      · have hpos := List.length_pos_iff.mpr hr
        cases hi : os i with
        | fail =>
            exact Or.inr ⟨0, hi, fun j hj => absurd hj (Nat.not_lt_zero j), by
              rw [Finset.sum_range_zero]; omega⟩
        | accept k =>
            have hlen : (rest.drop (k + 1)).length = rest.length - (k + 1) := List.length_drop
            rcases ih _ (by omega) (i + 1) (rest.drop (k + 1)) rfl with hall | ⟨n, hfail, hok, hlt⟩
            · left
              rw [cxlSendFrom_accept os i rest hi hr]
              dsimp only
              rw [hall, List.take_append_drop]
            · right
              refine ⟨n + 1, by rw [outcome_shift os, hfail], fun j hj => ?_, ?_⟩
              · cases j with
                | zero => rw [Nat.add_zero, hi]; exact SendOutcome.noConfusion
                | succ j => rw [outcome_shift os]; exact hok j (Nat.lt_of_succ_lt_succ hj)
              · rw [takes_sum_succ os hi]
                omega

-- one send of k + 1 bytes in front of the rest
theorem lastSendFails_succ {i k size : ℕ} (hi : os i = .accept k) (hsize : 0 < size) :
    LastSendFailsFrom os i size ↔ LastSendFailsFrom os (i + 1) (size - (k + 1)) := by
  constructor
  · rintro ⟨n, hfail, hok, hall⟩
    cases n with
    | zero =>
        rw [Nat.add_zero, hi] at hfail
        cases hfail
    | succ n =>
        rw [takes_sum_succ os hi] at hall
        refine ⟨n, by rw [← outcome_shift os, hfail], fun j hj => ?_, by omega⟩
        have hnext := hok (j + 1) (Nat.succ_lt_succ hj)
        rw [takes_sum_succ os hi, outcome_shift os] at hnext
        exact ⟨hnext.1, by omega⟩
  · rintro ⟨n, hfail, hok, hall⟩
    refine ⟨n + 1, by rw [outcome_shift os, hfail], fun j hj => ?_, ?_⟩
    · cases j with
      | zero =>
          rw [Nat.add_zero, hi, Finset.sum_range_zero]
          exact ⟨SendOutcome.noConfusion, hsize⟩
      | succ j =>
          have hnext := hok j (Nat.lt_of_succ_lt_succ hj)
          rw [takes_sum_succ os hi, outcome_shift os]
          exact ⟨hnext.1, by omega⟩
    · rw [takes_sum_succ os hi]
      omega

-- everything is out and the call still returns -1
theorem cxlSendFrom_lost_iff (i : ℕ) (rest : List UInt8) :
    ((cxlSendFrom os i rest).accepted = rest ∧ (cxlSendFrom os i rest).ret = -1) ↔
      LastSendFailsFrom os i rest.length := by
  induction hn : rest.length using Nat.strong_induction_on generalizing i rest with
  | h size ih =>
      subst hn
      cases hi : os i with
      | fail =>
          rw [cxlSendFrom_fail os i rest hi]
          constructor
          · rintro ⟨hnil, _⟩
            refine ⟨0, hi, fun j hj => absurd hj (Nat.not_lt_zero j), ?_⟩
            rw [← hnil]
            exact Nat.zero_le _
          · rintro ⟨n, _, hok, hall⟩
            cases n with
            | zero =>
                rw [Finset.sum_range_zero] at hall
                exact ⟨(List.length_eq_zero_iff.mp (Nat.le_zero.mp hall)).symm, rfl⟩
            | succ n => exact absurd hi (hok 0 (Nat.succ_pos n)).1
      | accept k =>
          by_cases hr : rest = []
          · subst hr
            rw [cxlSendFrom_nil os i hi]
            refine iff_of_false (fun h => absurd h.2 (by decide)) ?_
            rintro ⟨n, hfail, hok, _⟩
            cases n with
            | zero =>
                rw [Nat.add_zero, hi] at hfail
                cases hfail
            | succ n => exact absurd (hok 0 (Nat.succ_pos n)).2 (Nat.not_lt_zero _)
          · have hpos := List.length_pos_iff.mpr hr
            have hlen : (rest.drop (k + 1)).length = rest.length - (k + 1) := List.length_drop
            rw [cxlSendFrom_accept os i rest hi hr, lastSendFails_succ os hi hpos, ← hlen,
              ← ih _ (by omega) (i + 1) (rest.drop (k + 1)) rfl]
            have hcancel : ∀ bs : List UInt8, rest.take (k + 1) ++ bs = rest ↔
                bs = rest.drop (k + 1) := by
              intro bs
              rw [← List.append_cancel_left_eq (rest.take (k + 1)) bs, List.take_append_drop]
            rw [hcancel]

theorem cxlSendFrom_calls_le (i : ℕ) (rest : List UInt8) :
    (cxlSendFrom os i rest).calls ≤ rest.length + 1 := by
  induction hn : rest.length using Nat.strong_induction_on generalizing i rest with
  | h size ih =>
      cases hi : os i with
      | fail =>
          rw [cxlSendFrom_fail os i rest hi]
          exact Nat.le_add_left 1 size
      | accept k =>
          by_cases hr : rest = []
          · subst hr
            rw [cxlSendFrom_nil os i hi]
            exact Nat.le_add_left 1 size
          · have hpos := List.length_pos_iff.mpr hr
            have hlen : (rest.drop (k + 1)).length = rest.length - (k + 1) := List.length_drop
            have hnext := ih _ (by omega) (i + 1) (rest.drop (k + 1)) rfl
            rw [cxlSendFrom_accept os i rest hi hr]
            dsimp only
            omega

end Outcomes

/-- What `CXL_Send` should do: at most one call more than there are bytes, a part of the buffer
from its start, and a result that says whether it is all of it. -/
structure ExactSend (buf : List UInt8) (run : SendRun) : Prop where
  calls : run.calls ≤ buf.length + 1
  accepted : run.accepted <+: buf
  ret : run.ret = if run.accepted = buf then 1 else -1

/-- The first two hold on every sequence of results; the result is the right one unless the last
call, which offers nothing, fails. -/
theorem cxlSend_exact_iff (os : ℕ → SendOutcome) (buf : List UInt8) :
    ExactSend buf (cxlSend os buf) ↔ ¬ LastSendFails buf.length os := by
  rw [LastSendFails, ← cxlSendFrom_lost_iff, ← cxlSend]
  constructor
  · rintro ⟨_, _, hret⟩ ⟨hall, hfail⟩
    rw [if_pos hall, hfail] at hret
    exact absurd hret (by decide)
  · intro h
    refine ⟨cxlSendFrom_calls_le os 0 buf, cxlSend_accepted_prefix os buf, ?_⟩
    rcases cxlSend_ret os buf with hone | hfail
    · rw [hone, if_pos (cxlSend_accepted_of_ret os buf hone)]
    · rw [hfail, if_neg fun hall => h ⟨hall, hfail⟩]

-- one byte goes out, and the call that finds nothing left fails
theorem whole_buffer_reported_lost :
    ¬ ∀ (os : ℕ → SendOutcome) (buf : List UInt8), ExactSend buf (cxlSend os buf) := by
  intro h
  let os : ℕ → SendOutcome := fun i => if i = 0 then .accept 0 else .fail
  have hrun : cxlSend os [0] = { ret := -1, accepted := [0], calls := 2 } := by
    rw [cxlSend, cxlSendFrom_accept os 0 [0] rfl (List.cons_ne_nil _ _),
      cxlSendFrom_fail os (0 + 1) _ rfl]
    rfl
  have hret := (h os [0]).ret
  rw [hrun] at hret
  exact absurd hret (by decide)

/-! ## Receiving -/

/-- The receiving end of a connection: the bytes still to come, cut into the runs that the `recv`
calls find.  A `recv` at the end of the stream gets nothing. -/
structure TcpStream where
  segments : List (List UInt8)
  nonempty : ∀ seg ∈ segments, seg ≠ []

namespace TcpStream

def bytes (s : TcpStream) : List UInt8 := s.segments.flatten

/-- One `recv` of at most `size` bytes. -/
def recv (s : TcpStream) (size : ℕ) : List UInt8 × TcpStream :=
  match s with
  | ⟨[], h⟩ => ([], ⟨[], h⟩)
  | ⟨seg :: rest, h⟩ =>
      if hs : size < seg.length then
        (seg.take size, ⟨seg.drop size :: rest, by
          intro t ht
          rcases List.mem_cons.mp ht with rfl | hmem
          · exact fun hnil => absurd (List.drop_eq_nil_iff.mp hnil) (by omega)
          · exact h t (List.mem_cons_of_mem seg hmem)⟩)
      else (seg, ⟨rest, fun t ht => h t (List.mem_cons_of_mem seg ht)⟩)

theorem recv_bytes (s : TcpStream) (size : ℕ) :
    (s.recv size).1 ++ (s.recv size).2.bytes = s.bytes := by
  obtain ⟨_ | ⟨seg, rest⟩, h⟩ := s
  · rfl
  · simp only [recv]
    split
    · simp only [bytes, List.flatten_cons]
      rw [← List.append_assoc, List.take_append_drop]
    · simp only [bytes, List.flatten_cons]

end TcpStream

-- WAIT_FOREVER is 0xFFFFFFFF, which the int argument holds as -1
def waitForever : ℤ := -1

/-- The default branch of `CXL_Recv`: an empty result is tried again, `tries` times more. -/
def cxlRecvRetry (stopflag : Bool) (s : TcpStream) (size : ℕ) : ℕ → List UInt8 × TcpStream
  | 0 => if stopflag then ([], s) else s.recv size
  | tries + 1 =>
      if stopflag then ([], s)
      else if (s.recv size).1 = [] then cxlRecvRetry stopflag (s.recv size).2 size tries
      else s.recv size

/-- `CXL_Recv`.  The C function returns the number of bytes; the stream has no error results.
`stopflag` is `CXL_server_stopflag`, which no statement of the programs sets. -/
def cxlRecv (stopflag : Bool) (s : TcpStream) (size : ℕ) (waitflag : ℤ) : List UInt8 × TcpStream :=
  if waitflag = waitForever then
    if stopflag then ([], s) else s.recv size
  else cxlRecvRetry stopflag s size waitflag.toNat

theorem cxlRecv_waitForever (s : TcpStream) (size : ℕ) :
    cxlRecv false s size waitForever = s.recv size := by
  rw [cxlRecv, if_pos rfl, if_neg Bool.false_ne_true]

end SimConnect
