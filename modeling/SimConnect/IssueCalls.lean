import SimConnect.ForwardReceiver
import SimConnect.AccessCalls

/-!
# The calls of one transaction

`issue` makes the calls of its access and drops the result, so a failure anywhere in the chain comes
back to the processor as a successful transaction.
-/

open SimConnect.Foundation

namespace SimConnect

/-! ## issue in terms of its access -/

-- the access that issue makes with use_rtl on
def issueAccess (dev : ForwarderDevice) (t : Transaction) (addr : UInt64) (m : ForwardReceiver) :
    Access where
  spd := requestPacket dev t addr
  rd := .zero
  verbose := m.verbose
  timeStartFlag := m.timeStartFlag || t.isRead
  timeEndFlag := m.timeEndFlag

-- the transaction as the device leaves it, from what the access left in reply_pkt
def finishTransaction (t : Transaction) (addr : UInt64) (rd : SimicsTransaction) : Transaction :=
  if t.isRead then { t with value := readValue t.opsize addr (loadValue rd.data) } else t

section Issue

variable {dev : ForwarderDevice} {t : Transaction} {addr : UInt64} {m : ForwardReceiver}
  {tr : SysTrace} {o : Option ((ExceptionType × Transaction) × ForwardReceiver)}

/-- A transaction makes the calls of its access, and what comes back is always
`Sim_PE_No_Exception`. -/
theorem issue_calls (hrtl : dev.useRtl = true) (htr : (issue dev t addr m).Trace tr o) :
    ∃ res, WholeCalls (issueAccess dev t addr m) (sentPacket dev t addr m) (ioCalls tr) res ∧
      (o = none ↔ res = none) ∧
      ∀ x, o = some x → ∃ r, res = some r ∧ x.1.1 = .noException ∧
        x.1.2 = finishTransaction t addr r.rd ∧
        x.2.lib.simicsPacketNo = m.lib.simicsPacketNo + 1 := by
  rw [issue, if_pos hrtl] at htr
  rcases Prog.Trace.bind_inv htr with ⟨t₁, t₂, ⟨r, lib⟩, haccess, hrest, ht⟩ | ⟨ho, haccess⟩
  · obtain ⟨hcalls, hno⟩ := access_calls haccess
    have hno := hno (r, lib) rfl
    by_cases hread : t.isRead = true
    · rw [if_pos hread] at hrest
      cases hrest
      rw [ht, List.append_nil]
      refine ⟨some r, hcalls, by simp, fun x hx => ⟨r, rfl, ?_⟩⟩
      rw [← Option.some.inj hx, finishTransaction, if_pos hread]
      exact ⟨rfl, rfl, hno⟩
    · rw [if_neg hread] at hrest
      cases hrest
      rw [ht, List.append_nil]
      refine ⟨some r, hcalls, by simp, fun x hx => ⟨r, rfl, ?_⟩⟩
      rw [← Option.some.inj hx, finishTransaction, if_neg hread]
      exact ⟨rfl, rfl, hno⟩
  · obtain ⟨hcalls, _⟩ := access_calls haccess
    exact ⟨none, hcalls, by simp [ho], fun x hx => absurd (ho.symm.trans hx) (by simp)⟩

end Issue

-- one transaction to one of the device objects
structure DeviceAccess where
  dev : ForwarderDevice
  t : Transaction
  addr : UInt64

def issueBody (req : DeviceAccess) (m : ForwardReceiver) :
    Prog SysCall SysCall.Ret ((ExceptionType × Transaction) × ForwardReceiver) :=
  issue req.dev req.t req.addr m

/-! ## Failures of the exchange -/

def Enqueued (tr : SysTrace) : Prop := ∃ fd p, ⟨.write fd p, (simicsPktSize : ℤ)⟩ ∈ tr

def EnqueueFailed (tr : SysTrace) : Prop :=
  ∃ fd p retval, ⟨.write fd p, retval⟩ ∈ tr ∧ simicsEnqueRequestClientTlp retval p = none

-- a complete reply packet came out of the pipe
def ReplyDequeued (tr : SysTrace) : Prop := ∃ fd r, ⟨.read fd, r⟩ ∈ tr ∧ r.IsFull

def LogNotOpened (tr : SysTrace) : Prop := ∃ path, ⟨.fopen path, false⟩ ∈ tr

/-- What a processor should be told about a transaction with the calls `tr` and the end `o`. -/
structure FailuresReported (t : Transaction) (addr : UInt64) (tr : SysTrace)
    (o : Option ((ExceptionType × Transaction) × ForwardReceiver)) : Prop where
  reported : ∀ x, o = some x → ¬ (Enqueued tr ∧ ReplyDequeued tr) → x.1.1 ≠ .noException
  value : ∀ x, o = some x → t.isRead = true → x.1.1 = .noException →
    ∃ fd q, ⟨.read fd, .packet q⟩ ∈ tr ∧ x.1.2.value = readValue t.opsize addr (loadValue q.data)
  dequeue : EnqueueFailed tr → NoRead tr

section Failures

variable {tr : SysTrace} {fd fd' : ℤ} {spd : SimicsTransaction}

theorem enqueueFailed_iff {retval : ℤ} (h : writeCalls tr = [(fd, spd, retval)]) :
    EnqueueFailed tr ↔ retval = -1 := by
  have hnone : ∀ (p : SimicsTransaction) (r : ℤ),
      simicsEnqueRequestClientTlp r p = none ↔ r = -1 := by
    intro p r
    change (if r = -1 then none else some p) = none ↔ _
    by_cases hr : r = -1
    · rw [if_pos hr]
      exact iff_of_true rfl hr
    · rw [if_neg hr]
      exact iff_of_false (by simp) hr
  constructor
  · rintro ⟨fd₁, p, r, hmem, hfail⟩
    rw [← mem_writeCalls, h, List.mem_singleton] at hmem
    have hretval : r = retval := congrArg (fun x => x.2.2) hmem
    rw [← hretval]
    exact (hnone p r).mp hfail
  · intro hr
    refine ⟨fd, spd, retval, ?_, (hnone spd retval).mpr hr⟩
    rw [← mem_writeCalls, h]
    exact List.mem_singleton_self _

theorem not_enqueueFailed (h : writeCalls tr = []) : ¬ EnqueueFailed tr := by
  rintro ⟨fd₁, p, r, hmem, _⟩
  rw [← mem_writeCalls, h] at hmem
  exact List.not_mem_nil hmem

theorem not_enqueued_of_failed {retval : ℤ} (h : writeCalls tr = [(fd, spd, retval)])
    (hfail : EnqueueFailed tr) : ¬ Enqueued tr := by
  rintro ⟨fd₁, p, hmem⟩
  rw [← mem_writeCalls, h, List.mem_singleton] at hmem
  have hretval : (simicsPktSize : ℤ) = retval := congrArg (fun x => x.2.2) hmem
  rw [(enqueueFailed_iff h).mp hfail] at hretval
  exact absurd hretval (by decide)

theorem noRead_of_readCalls (h : readCalls tr = []) : NoRead tr := by
  intro fd r hmem
  rw [← mem_readCalls, h] at hmem
  exact List.not_mem_nil hmem

theorem not_replyDequeued (h : readCalls tr = []) : ¬ ReplyDequeued tr :=
  fun ⟨fd₁, r, hmem, _⟩ => noRead_of_readCalls h fd₁ r hmem

theorem replyDequeued_iff {r : ReadResult} (h : readCalls tr = [(fd, r)]) :
    ReplyDequeued tr ↔ r.IsFull := by
  constructor
  · rintro ⟨fd₁, r', hmem, hfull⟩
    rw [← mem_readCalls, h, List.mem_singleton] at hmem
    cases hmem
    exact hfull
  · intro hfull
    refine ⟨fd, r, ?_, hfull⟩
    rw [← mem_readCalls, h]
    exact List.mem_singleton_self _

theorem logNotOpened_iff : LogNotOpened tr ↔ ∃ path, (path, false) ∈ fopenCalls tr := by
  simp only [LogNotOpened, mem_fopenCalls]

theorem not_logNotOpened (h : ∀ path, (path, false) ∉ fopenCalls tr) : ¬ LogNotOpened tr :=
  fun hlog => (logNotOpened_iff.mp hlog).elim h

-- after a whole exchange there is nothing to report, and a read has the value of the reply
theorem failuresReported_of_exchange {t : Transaction} {addr : UInt64} {retval : ℤ} {r : ReadResult}
    {x : (ExceptionType × Transaction) × ForwardReceiver}
    (hwrite : writeCalls tr = [(fd, spd, retval)]) (hread : readCalls tr = [(fd', r)])
    (henqueued : Enqueued tr) (hfull : r.IsFull)
    (hvalue : x.1.2 = finishTransaction t addr (r.store .zero)) :
    FailuresReported t addr tr (some x) := by
  have hdequeued := (replyDequeued_iff hread).mpr hfull
  refine ⟨fun y _ hfail => absurd ⟨henqueued, hdequeued⟩ hfail, fun y hy hisRead _ => ?_,
    fun hfail => absurd henqueued (not_enqueued_of_failed hwrite hfail)⟩
  refine ⟨fd', r.store .zero, ?_, ?_⟩
  · rw [← mem_readCalls, hread, ← ReadResult.eq_packet_of_isFull hfull .zero]
    exact List.mem_singleton_self _
  · rw [← Option.some.inj hy, hvalue, finishTransaction, if_pos hisRead]

end Failures

/-- With `use_rtl` on, a transaction tells of every failure exactly when there is none, or the
process exits: because the log cannot be opened, or, with `verbose` on, because the enqueue fails.
-/
theorem failures_reported_iff {dev : ForwarderDevice} (hrtl : dev.useRtl = true) {t : Transaction}
    {addr : UInt64} {m : ForwardReceiver} {tr : SysTrace}
    {o : Option ((ExceptionType × Transaction) × ForwardReceiver)}
    (htr : (issue dev t addr m).Trace tr o) :
    FailuresReported t addr tr o ↔
      (Enqueued tr ∧ ReplyDequeued tr) ∨ LogNotOpened tr ∨
        (m.verbose = true ∧ EnqueueFailed tr) := by
  obtain ⟨res, hcalls, hnone, hsome⟩ := issue_calls hrtl htr
  have hends := hcalls.ends
  constructor
  · intro h
    cases o with
    | some x =>
        -- the result is Sim_PE_No_Exception in any case
        obtain ⟨r, _, hexc, _⟩ := hsome x rfl
        left
        by_contra hfail
        exact h.reported x rfl hfail hexc
    | none =>
        right
        rw [hnone.mp rfl] at hends
        cases hends with
        | noLog hlog _ _ => exact Or.inl (logNotOpened_iff.mpr ⟨_, hlog⟩)
        | enqueueFailed _ hwrite _ hverbose =>
            exact Or.inr ⟨hverbose, (enqueueFailed_iff hwrite).mpr rfl⟩
  · intro h
    cases o with
    | none =>
        refine ⟨fun x hx => absurd hx (by simp), fun x hx => absurd hx (by simp), fun hfail => ?_⟩
        rw [hnone.mp rfl] at hends
        cases hends with
        | noLog _ hwrite _ => exact absurd hfail (not_enqueueFailed hwrite)
        | enqueueFailed _ _ hread _ => exact noRead_of_readCalls hread
    | some x =>
        obtain ⟨r, hr, hexc, hvalue, _⟩ := hsome x rfl
        rw [hr] at hends
        cases hends with
        | notOpened hlog hwrite hread =>
            rcases h with ⟨_, hdequeued⟩ | hlog' | ⟨_, hfail⟩
            · exact absurd hdequeued (not_replyDequeued hread)
            · exact absurd hlog' (not_logNotOpened hlog)
            · exact absurd hfail (not_enqueueFailed hwrite)
        | @exchanged fd fd' retval rr hlog hwrite hread hverbose =>
            have hexchanged : Enqueued tr ∧ rr.IsFull := by
              rcases h with ⟨henqueued, hdequeued⟩ | hlog' | ⟨hverbose', hfail⟩
              · exact ⟨henqueued, (replyDequeued_iff hread).mp hdequeued⟩
              · exact absurd hlog' (not_logNotOpened hlog)
              · have hoff : m.verbose = false := hverbose ((enqueueFailed_iff hwrite).mp hfail)
                rw [hverbose'] at hoff
                cases hoff
            exact failuresReported_of_exchange hwrite hread hexchanged.1 hexchanged.2 hvalue

theorem failures_reported_of_reply : ∃ (tr : SysTrace)
    (x : (ExceptionType × Transaction) × ForwardReceiver),
    (issue rtlDevice { isRead := true, size := 4, value := 0 } 8 .init).Trace tr (some x) ∧
      FailuresReported { isRead := true, size := 4, value := 0 } 8 tr (some x) := by
  have htr := Prog.trace_runWith (fun (_ : Unit) c => (answerWith .zero c, ()))
    (issue rtlDevice { isRead := true, size := 4, value := 0 } 8 .init) ()
  let p := sentPacket rtlDevice { isRead := true, size := 4, value := 0 } 8 .init
  refine ⟨_, _, htr, (failures_reported_iff rfl htr).mpr (Or.inl ⟨⟨3, p, ?_⟩, 4, .packet .zero, ?_,
    ReadResult.packet_isFull .zero⟩)⟩
  · exact List.mem_of_getElem? (i := 12) rfl
  · exact List.mem_of_getElem? (i := 16) rfl

-- no pipe opens
def answerNoPipe : (c : SysCall) → c.Ret
  | .open _ => -1
  | c => answerWith .zero c

/-- The read that could not open its pipes is the value 0 to the processor. -/
theorem failed_read_not_reported :
    ¬ ∀ (dev : ForwarderDevice), dev.useRtl = true → ∀ (t : Transaction) (addr : UInt64),
      1 ≤ t.size.toNat → t.size.toNat ≤ 8 → ∀ (m : ForwardReceiver) (tr : SysTrace)
        (o : Option ((ExceptionType × Transaction) × ForwardReceiver)),
        (issue dev t addr m).Trace tr o → FailuresReported t addr tr o := by
  intro h
  have htr := Prog.trace_runWith (fun (_ : Unit) c => (answerNoPipe c, ()))
    (issue rtlDevice { isRead := true, size := 4, value := 0 } 0 .init) ()
  have hfailures := h rtlDevice rfl { isRead := true, size := 4, value := 0 } 0 (by decide)
    (by decide) .init _ _ htr
  refine hfailures.reported _ rfl (fun hexchanged => ?_) rfl
  obtain ⟨fd, p, hmem⟩ := hexchanged.1
  rw [← mem_writeCalls] at hmem
  exact List.not_mem_nil hmem

end SimConnect
