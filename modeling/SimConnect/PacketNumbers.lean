import SimConnect.HostPipes
import SimConnect.AccessCalls

/-!
# The packet number over a run

`simics_packet_no` starts at 1 and goes up by one at every call, whether the call sends anything or
not.  A 32-bit counter comes to 0, the number that stops the RTL loop.
-/

open SimConnect.Foundation

namespace SimConnect

-- the number of the call with `n` calls before it
def packetNo (n : ℕ) : UInt32 := 1 + UInt32.ofNat n

theorem packetNo_succ (n : ℕ) : packetNo (n + 1) = packetNo n + 1 := by
  rw [packetNo, packetNo, UInt32.ofNat_add, UInt32.add_assoc]
  rfl

theorem packetNo_eq_zero_iff (n : ℕ) : packetNo n = 0 ↔ 2 ^ 32 ∣ n + 1 := by
  have hofNat : packetNo n = UInt32.ofNat (n + 1) := by
    rw [packetNo, UInt32.ofNat_add, UInt32.add_comm]
    rfl
  rw [hofNat, ← UInt32.toNat_inj, UInt32.toNat_ofNat']
  exact (Nat.dvd_iff_mod_eq_zero).symm

abbrev AccessRounds := List (Access × SysTrace × Option AccessResult)

/-- `t` has a write of `p` that did not fail. -/
def Enqueues (t : SysTrace) (p : SimicsTransaction) : Prop :=
  ∃ fd retval, ⟨.write fd p, retval⟩ ∈ t ∧ simicsEnqueRequestClientTlp retval p ≠ none

section Run

variable {a : Access} {lib : DeviceLib} {t : SysTrace} {o : Option (AccessResult × DeviceLib)}

-- whatever an access writes, it is the caller's packet with the number of the counter
theorem access_writes (htr : (accessBody a lib).Trace t o) {fd : ℤ} {p : SimicsTransaction}
    {retval : ℤ} (hmem : ⟨.write fd p, retval⟩ ∈ t) :
    p = { a.spd with packetNumber := lib.simicsPacketNo } := by
  have hends := (access_calls htr).1.ends
  rw [← mem_writeCalls] at hmem
  generalize o.map Prod.fst = res at hends
  cases hends with
  | noLog _ hwrite _ =>
      rw [hwrite] at hmem
      exact absurd hmem List.not_mem_nil
  | notOpened _ hwrite _ =>
      rw [hwrite] at hmem
      exact absurd hmem List.not_mem_nil
  | enqueueFailed _ hwrite _ _ =>
      rw [hwrite, List.mem_singleton] at hmem
      exact congrArg (fun x => x.2.1) hmem
  | exchanged _ hwrite _ _ =>
      rw [hwrite, List.mem_singleton] at hmem
      exact congrArg (fun x => x.2.1) hmem

/-- Every packet that a call of a run enqueues has the number of that call. -/
theorem run_packetNumber {rounds : AccessRounds} (h : Session accessBody .init rounds) {k : ℕ}
    {r : Access × SysTrace × Option AccessResult} (hr : rounds[k]? = some r)
    {p : SimicsTransaction} (hp : Enqueues r.2.1 p) : p.packetNumber = packetNo k := by
  have hrounds := h.rounds (B := fun n lib => lib.simicsPacketNo = packetNo n)
    (G := fun n _ t _ => ∀ p, Enqueues t p → p.packetNumber = packetNo n) ?_ (n := 0) rfl k r hr
  · rw [Nat.zero_add] at hrounds
    exact hrounds p hp
  · intro n lib a t o hlib htr
    constructor
    · rintro p ⟨fd, retval, hmem, _⟩
      rw [access_writes htr hmem]
      exact hlib
    · intro x hx
      rw [(access_calls htr).2 x hx, hlib, packetNo_succ]

end Run

-- no packet that the calls of `rounds` enqueue has the number that stops the RTL loop
def NoStopNumber (rounds : AccessRounds) : Prop :=
  ∀ r ∈ rounds, ∀ p, Enqueues r.2.1 p → p.packetNumber ≠ 0

/-- A run keeps clear of the number 0 exactly when no call whose ordinal is a multiple of 2^32 gets
its packet into the pipe. -/
theorem no_stop_number_iff {rounds : AccessRounds} (h : Session accessBody .init rounds) :
    NoStopNumber rounds ↔
      ∀ k r, rounds[k]? = some r → 2 ^ 32 ∣ k + 1 → ∀ p, ¬ Enqueues r.2.1 p := by
  constructor
  · intro hnumber k r hr hk p hp
    refine hnumber r (List.mem_of_getElem? hr) p hp ?_
    rw [run_packetNumber h hr hp]
    exact (packetNo_eq_zero_iff k).mpr hk
  · intro hfree r hmem p hp hzero
    obtain ⟨k, hr⟩ := List.mem_iff_getElem?.mp hmem
    rw [run_packetNumber h hr hp] at hzero
    exact hfree k r hr ((packetNo_eq_zero_iff k).mp hzero) p hp

/-! ## A run that comes to the number 0 -/

-- every call succeeds
def answerAll : (c : SysCall) → c.Ret
  | .getenv _ => some "relay"
  | .strbuf _ _ => ()
  | .fopen _ => true
  | .localtime => true
  | .fprintf _ => ()
  | .fflush _ => ()
  | .open _ => 3
  | .close _ => ()
  | .write _ _ => simicsPktSize
  | .read _ => .packet .zero

-- whatever the library holds, an access can put its packet into the pipe and finish
theorem access_can_enqueue (lib : DeviceLib) : ∃ a t r lib',
    (accessBody a lib).Trace t (some (r, lib')) ∧ ∃ p, Enqueues t p := by
  have htr := Prog.trace_runWith (fun (_ : Unit) c => (answerAll c, ()))
    (accessBody plainAccess lib) ()
  obtain ⟨no, started, num, logfp, fd, fd'⟩ := lib
  cases logfp with
  | false =>
      refine ⟨plainAccess, _, _, _, htr, { SimicsTransaction.zero with packetNumber := no }, 3,
        simicsPktSize, List.mem_of_getElem? (i := 12) rfl, ?_⟩
      exact Option.some_ne_none _
  | true =>
      refine ⟨plainAccess, _, _, _, htr, { SimicsTransaction.zero with packetNumber := no }, 3,
        simicsPktSize, List.mem_of_getElem? (i := 11) rfl, ?_⟩
      exact Option.some_ne_none _

/-- A run of 2^32 - 1 calls that all get through, the longest one with no packet number 0. -/
theorem longest_run_no_stop_number : ∃ rounds : AccessRounds, Session accessBody .init rounds ∧
    rounds.length = 2 ^ 32 - 1 ∧ (∀ r ∈ rounds, ∃ p, Enqueues r.2.1 p) ∧ NoStopNumber rounds := by
  obtain ⟨rounds, hrounds, hlen, hall⟩ := Session.exists_length
    (P := fun _ t _ => ∃ p, Enqueues t p) access_can_enqueue .init (2 ^ 32 - 1)
  refine ⟨rounds, hrounds, hlen, fun r hr => ?_, ?_⟩
  · obtain ⟨_, _, henqueues⟩ := hall r hr
    exact henqueues
  · refine (no_stop_number_iff hrounds).mpr fun k r hr hk => ?_
    obtain ⟨hlt, _⟩ := List.getElem?_eq_some_iff.mp hr
    rw [hlen] at hlt
    have hle := Nat.le_of_dvd (Nat.succ_pos k) hk
    omega

/-- In a run of 2^32 calls that all get through, the last packet has the number 0. -/
theorem stop_number_enqueued :
    ¬ ∀ rounds : AccessRounds, Session accessBody .init rounds → NoStopNumber rounds := by
  intro h
  obtain ⟨rounds, hrounds, hlen, hall⟩ := Session.exists_length
    (P := fun _ t _ => ∃ p, Enqueues t p) access_can_enqueue .init (2 ^ 32)
  have hlast : 2 ^ 32 - 1 < rounds.length := by
    rw [hlen]
    decide
  have hr := List.getElem?_eq_getElem hlast
  have hmem := List.getElem_mem hlast
  obtain ⟨_, _, p, hp⟩ := hall _ hmem
  refine h rounds hrounds _ hmem p hp ?_
  rw [run_packetNumber hrounds hr hp]
  exact (packetNo_eq_zero_iff _).mpr ⟨1, rfl⟩

end SimConnect
