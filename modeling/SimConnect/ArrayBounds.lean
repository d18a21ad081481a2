import SimConnect.RelayLoops
import SimConnect.DpiBoundary
import SimConnect.Framing

/-!
# Array accesses while a packet is handled

The log takes `sim_type` as an index and `data_size` as a length, and the two DPI functions take
`data_size` as the length of a `memcpy`.  No path of the relay server, the relay client or the DPI
library looks at the value of either field before.
-/

namespace SimConnect

/-! ## Accesses -/

structure ArrayAccess where
  size : ℕ
  index : ℕ
  deriving DecidableEq

def AllInRange (as : List ArrayAccess) : Prop := ∀ a ∈ as, a.index < a.size

instance (as : List ArrayAccess) : Decidable (AllInRange as) :=
  inferInstanceAs (Decidable (∀ a ∈ as, a.index < a.size))

theorem allInRange_nil : AllInRange [] := fun _ h => absurd h List.not_mem_nil

theorem allInRange_append (as as' : List ArrayAccess) :
    AllInRange (as ++ as') ↔ AllInRange as ∧ AllInRange as' :=
  List.forall_mem_append

theorem allInRange_cons (a : ArrayAccess) (as : List ArrayAccess) :
    AllInRange (a :: as) ↔ a.index < a.size ∧ AllInRange as :=
  List.forall_mem_cons

theorem allInRange_ite (c : Prop) [Decidable c] (as : List ArrayAccess) :
    AllInRange (if c then as else []) ↔ (c → AllInRange as) := by
  by_cases hc : c
  · rw [if_pos hc]
    exact ⟨fun h _ => h, fun h => h hc⟩
  · rw [if_neg hc]
    exact ⟨fun _ h => absurd h hc, fun _ => allInRange_nil⟩

-- data[0] to data[n - 1]
def dataAccesses (n : UInt32) : List ArrayAccess :=
  (List.range n.toNat).map fun i => { size := maxPayloadSize, index := i }

theorem dataAccesses_inRange_iff (n : UInt32) :
    AllInRange (dataAccesses n) ↔ n.toNat ≤ maxPayloadSize := by
  rw [AllInRange, dataAccesses, List.forall_mem_map]
  constructor
  · intro h
    by_contra hlt
    have hlast := h maxPayloadSize (List.mem_range.mpr (Nat.lt_of_not_le hlt))
    exact lt_irrefl _ hlast
  · intro hle i hi
    exact lt_of_lt_of_le (List.mem_range.mp hi) hle

-- memcpy reads one data array and writes another
def memcpyAccesses (n : UInt32) : List ArrayAccess := dataAccesses n ++ dataAccesses n

theorem memcpyAccesses_inRange_iff (n : UInt32) :
    AllInRange (memcpyAccesses n) ↔ n.toNat ≤ maxPayloadSize := by
  rw [memcpyAccesses, allInRange_append, and_self, dataAccesses_inRange_iff]

/-! ## simics_print_fifo_pkt_data_and_log -/

def hosttype : List String := ["NotDef", "SIMICS", "TESTHOST", ""]

/-- Where a packet is logged to: the standard output, the log file; and whether `localtime` gives a
time. -/
structure LogTo where
  verbose : Bool
  fp : Bool
  localtime : Bool

-- the condition of the data loop
def hasData (flag : ℕ) (r0w1 : UInt32) : Bool :=
  (flag == 1 && r0w1 == 1) || (flag == 0 && r0w1 == 0)

-- one entry of the log
def entryAccesses (p : SimicsTransaction) (flag : ℕ) : List ArrayAccess :=
  { size := hosttype.length, index := p.simType.toNat } ::
    if hasData flag p.r0w1 then dataAccesses p.dataSize else []

/-- The accesses of `simics_print_fifo_pkt_data_and_log`. -/
def logAccesses (dest : LogTo) (p : SimicsTransaction) (flag : ℕ) : List ArrayAccess :=
  if dest.localtime then
    (if dest.verbose then entryAccesses p flag else []) ++
      if dest.fp then entryAccesses p flag else []
  else []

-- print_simics_pkt_data
def printSimicsPktDataAccesses (localtime : Bool) (p : SimicsTransaction) : List ArrayAccess :=
  logAccesses { verbose := false, fp := false, localtime } p 0

def LogTo.Prints (dest : LogTo) : Prop :=
  dest.localtime = true ∧ (dest.verbose = true ∨ dest.fp = true)

/-- The header fields that an entry with this flag needs. -/
def SafeToPrint (p : SimicsTransaction) (flag : ℕ) : Prop :=
  p.simType.toNat < hosttype.length ∧
    (hasData flag p.r0w1 = true → p.dataSize.toNat ≤ maxPayloadSize)

theorem entryAccesses_inRange_iff (p : SimicsTransaction) (flag : ℕ) :
    AllInRange (entryAccesses p flag) ↔ SafeToPrint p flag := by
  rw [entryAccesses, allInRange_cons, allInRange_ite, dataAccesses_inRange_iff, SafeToPrint]

theorem logAccesses_inRange_iff (dest : LogTo) (p : SimicsTransaction) (flag : ℕ) :
    AllInRange (logAccesses dest p flag) ↔ (dest.Prints → SafeToPrint p flag) := by
  rw [logAccesses, allInRange_ite, allInRange_append, allInRange_ite, allInRange_ite,
    entryAccesses_inRange_iff, LogTo.Prints]
  constructor
  · rintro h ⟨hlocaltime, hverbose | hfp⟩
    · exact (h hlocaltime).1 hverbose
    · exact (h hlocaltime).2 hfp
  · intro h hlocaltime
    exact ⟨fun hverbose => h ⟨hlocaltime, Or.inl hverbose⟩, fun hfp => h ⟨hlocaltime, Or.inr hfp⟩⟩

/-! ## The handlers -/

def RelayEvent.accesses (dest : LogTo) : RelayEvent → List ArrayAccess
  | .logged p flag => logAccesses dest p flag
  | _ => []

def eventAccesses (dest : LogTo) (es : List RelayEvent) : List ArrayAccess :=
  es.flatMap (RelayEvent.accesses dest)

-- no statement of the server sets it
def loggingOn : Bool := false

-- a full packet in cxl_tcp_server_thread
def cxlTcpServerThreadAccesses (dest : LogTo) (p : SimicsTransaction) : List ArrayAccess :=
  if dest.fp then
    if loggingOn then logAccesses dest p 1 else []
  else []

-- a full packet in cxl_relay_client_thread; `retval` is the result of the write
def cxlRelayClientThreadAccesses (dest : LogTo) (p : SimicsTransaction) (retval : ℤ) :
    List ArrayAccess :=
  if simicsValidateReceive p ≤ 0 then []
  else if (simicsEnqueReplyClientTlp retval p).isSome then logAccesses dest p 2 else []

def simicsDpiRequestAccesses (dest : LogTo) (r : ReadResult) : List ArrayAccess :=
  let dequeued := simicsDequeRequestServerTlp r .zero
  if 0 < dequeued.1 then
    logAccesses dest dequeued.2 1 ++ memcpyAccesses dequeued.2.dataSize
  else []

def simicsDpiResponseAccesses (dest : LogTo) (fromCosim : SimicsTransaction) : List ArrayAccess :=
  memcpyAccesses fromCosim.dataSize ++ logAccesses dest (dpiResponseData fromCosim) 2

/-- A packet on its way through one of the programs, with what decides its way. -/
inductive Receipt
  | cxlTcpServerThread (p : SimicsTransaction)
  | cxlServerFifoAccessThread (t : RelayThread) (r : Round)
  | cxlRtlToHostReplyThread (usenetwork : Bool) (t : RelayThread) (r : Round)
  | cxlRelayClientThread (p : SimicsTransaction) (retval : ℤ)
  | hostRequestReadThread (t : RelayThread) (r : Round)
  | simicsDpiRequest (r : ReadResult)
  | simicsDpiResponse (fromCosim : SimicsTransaction)
  | printSimicsPktData (p : SimicsTransaction)

namespace Receipt

/-- Every array access with an index or a length from the packet. -/
def accesses (dest : LogTo) : Receipt → List ArrayAccess
  | cxlTcpServerThread p => cxlTcpServerThreadAccesses dest p
  | cxlServerFifoAccessThread t r =>
      eventAccesses dest (requestRound "cxl_server_fifo_access_thread"
        dumpForSystemVerilogFifoInPut dest.verbose t r).2
  | cxlRtlToHostReplyThread usenetwork t r =>
      eventAccesses dest (replyRound usenetwork dest.verbose t r).2
  | cxlRelayClientThread p retval => cxlRelayClientThreadAccesses dest p retval
  | hostRequestReadThread t r => eventAccesses dest
      (requestRound "host_request_read_thread" (fun _ => sendPacket) dest.verbose t r).2
  | simicsDpiRequest r => simicsDpiRequestAccesses dest r
  | simicsDpiResponse fromCosim => simicsDpiResponseAccesses dest fromCosim
  | printSimicsPktData p => printSimicsPktDataAccesses dest.localtime p

def packet : Receipt → SimicsTransaction
  | cxlTcpServerThread p => p
  | cxlServerFifoAccessThread t r => r.read.store t.simicsData
  | cxlRtlToHostReplyThread _ t r => r.read.store t.simicsData
  | cxlRelayClientThread p _ => p
  | hostRequestReadThread t r => r.read.store t.simicsData
  | simicsDpiRequest r => r.store .zero
  | simicsDpiResponse fromCosim => dpiResponseData fromCosim
  | printSimicsPktData p => p

-- whether cxl_rtl_to_host_reply_thread gets its packet out
def forwards (usenetwork : Bool) (p : SimicsTransaction) (r : Round) : Bool :=
  if usenetwork then decide ((cxlSend r.sends p.image).ret = 1)
  else (simicsEnqueReplyClientTlp r.retval p).isSome

-- the flag that the packet is logged with, if it is
def loggedAs : Receipt → Option ℕ
  | cxlTcpServerThread _ => none
  | cxlServerFifoAccessThread _ _ => some 1
  | cxlRtlToHostReplyThread usenetwork t r =>
      if forwards usenetwork (r.read.store t.simicsData) r then some 2 else none
  | cxlRelayClientThread p retval =>
      if (simicsEnqueReplyClientTlp retval p).isSome then some 2 else none
  | hostRequestReadThread _ _ => some 1
  | simicsDpiRequest r => if 0 < r.ret then some 1 else none
  | simicsDpiResponse _ => some 2
  | printSimicsPktData _ => none

-- whether its payload is copied
def copies : Receipt → Bool
  | simicsDpiRequest r => decide (0 < r.ret)
  | simicsDpiResponse _ => true
  | _ => false

/-- The header fields that this way through the program needs. -/
structure Fits (dest : LogTo) (x : Receipt) : Prop where
  printed : ∀ flag, x.loggedAs = some flag → dest.Prints → SafeToPrint x.packet flag
  copied : x.copies = true → x.packet.dataSize.toNat ≤ maxPayloadSize

end Receipt

/-! ## What the rounds log -/

section Events

variable (dest : LogTo)

theorem eventAccesses_skipsPrintf : SkipsPrintf (eventAccesses dest) :=
  ⟨fun _ _ => List.flatMap_append, fun _ => rfl⟩

-- a round that carries a request logs what its buffer holds, as a request
theorem requestRound_accesses (name : String) (verbose : Bool)
    (forward : Bool → SimicsTransaction → Round → Bool × List RelayEvent)
    (hforward : ∀ p r, eventAccesses dest (forward verbose p r).2 = []) (t : RelayThread)
    (r : Round) :
    eventAccesses dest (requestRound name forward verbose t r).2 =
      logAccesses dest (r.read.store t.simicsData) 1 := by
  have hskips := eventAccesses_skipsPrintf dest
  rw [← hskips.effects, requestRound_effects]
  change logAccesses dest _ 1 ++ eventAccesses dest (effects _) = _
  rw [hskips.effects, hforward, List.append_nil]

theorem eventAccesses_dump (verbose : Bool) (p : SimicsTransaction) (r : Round) :
    eventAccesses dest (dumpForSystemVerilogFifoInPut verbose p r).2 = [] := by
  rw [← (eventAccesses_skipsPrintf dest).effects, dumpForSystemVerilogFifoInPut_effects]
  rfl

theorem eventAccesses_sendPacket (p : SimicsTransaction) (r : Round) :
    eventAccesses dest (sendPacket p r).2 = [] := rfl

-- a reply is logged once it has been forwarded
theorem replyRound_accesses (usenetwork verbose : Bool) (t : RelayThread) (r : Round) :
    eventAccesses dest (replyRound usenetwork verbose t r).2 =
      if Receipt.forwards usenetwork (r.read.store t.simicsData) r then
        logAccesses dest (r.read.store t.simicsData) 2 else [] := by
  have hskips := eventAccesses_skipsPrintf dest
  rw [← hskips.effects, replyRound_effects, hskips.append, apply_ite (eventAccesses dest)]
  cases usenetwork
  all_goals
    change (if Receipt.forwards _ (r.read.store t.simicsData) r = true then
      logAccesses dest (r.read.store t.simicsData) 2 ++ [] else []) = _
    rw [List.append_nil]

end Events

/-! ## Every way through the programs -/

-- a packet that is logged with `flag` and not copied
theorem fits_logged (x : Receipt) {dest : LogTo} {flag : ℕ} (hlogged : x.loggedAs = some flag)
    (hcopies : x.copies = false) : x.Fits dest ↔ (dest.Prints → SafeToPrint x.packet flag) := by
  constructor
  · intro h
    exact h.printed flag hlogged
  · intro h
    refine ⟨fun flag' hflag => ?_, fun hcopied => ?_⟩
    · rw [hlogged] at hflag
      rw [← Option.some.inj hflag]
      exact h
    · rw [hcopies] at hcopied
      cases hcopied

-- a packet that is neither logged nor copied
theorem fits_unlogged {x : Receipt} (dest : LogTo) (hlogged : x.loggedAs = none)
    (hcopies : x.copies = false) : x.Fits dest := by
  refine ⟨fun flag hflag => ?_, fun hcopied => ?_⟩
  · rw [hlogged] at hflag
    cases hflag
  · rw [hcopies] at hcopied
    cases hcopied

-- a packet that is logged with `flag` and copied
theorem fits_copied (x : Receipt) {dest : LogTo} {flag : ℕ} (hlogged : x.loggedAs = some flag)
    (hcopies : x.copies = true) :
    x.Fits dest ↔ (dest.Prints → SafeToPrint x.packet flag) ∧
      x.packet.dataSize.toNat ≤ maxPayloadSize := by
  constructor
  · intro h
    exact ⟨h.printed flag hlogged, h.copied hcopies⟩
  · rintro ⟨hprinted, hcopied⟩
    refine ⟨fun flag' hflag => ?_, fun _ => hcopied⟩
    rw [hlogged] at hflag
    rw [← Option.some.inj hflag]
    exact hprinted

/-- Every array access with an index or a length from a packet is in range exactly when the fields
of the packet fit the way it takes. -/
theorem accesses_inRange_iff (x : Receipt) (dest : LogTo) :
    AllInRange (x.accesses dest) ↔ x.Fits dest := by
  cases x with
  | cxlTcpServerThread p =>
      have hnone : cxlTcpServerThreadAccesses dest p = [] := by
        rw [cxlTcpServerThreadAccesses, loggingOn, if_neg Bool.false_ne_true, ite_self]
      rw [Receipt.accesses, hnone]
      exact iff_of_true allInRange_nil (fits_unlogged dest rfl rfl)
  | cxlServerFifoAccessThread t r =>
      rw [Receipt.accesses, requestRound_accesses dest _ _ _ (eventAccesses_dump dest dest.verbose),
        logAccesses_inRange_iff]
      exact (fits_logged (.cxlServerFifoAccessThread t r) rfl rfl).symm
  | cxlRtlToHostReplyThread usenetwork t r =>
      rw [Receipt.accesses, replyRound_accesses]
      by_cases hforwards : Receipt.forwards usenetwork (r.read.store t.simicsData) r = true
      · rw [if_pos hforwards, logAccesses_inRange_iff]
        exact (fits_logged (.cxlRtlToHostReplyThread usenetwork t r) (if_pos hforwards) rfl).symm
      · rw [if_neg hforwards]
        exact iff_of_true allInRange_nil (fits_unlogged dest (if_neg hforwards) rfl)
  | cxlRelayClientThread p retval =>
      have hvalid : ¬ simicsValidateReceive p ≤ 0 := by
        unfold simicsValidateReceive
        decide
      rw [Receipt.accesses, cxlRelayClientThreadAccesses, if_neg hvalid]
      by_cases hqueued : (simicsEnqueReplyClientTlp retval p).isSome = true
      · rw [if_pos hqueued, logAccesses_inRange_iff]
        exact (fits_logged (.cxlRelayClientThread p retval) (if_pos hqueued) rfl).symm
      · rw [if_neg hqueued]
        exact iff_of_true allInRange_nil (fits_unlogged dest (if_neg hqueued) rfl)
  | hostRequestReadThread t r =>
      rw [Receipt.accesses, requestRound_accesses dest _ _ _ (eventAccesses_sendPacket dest),
        logAccesses_inRange_iff]
      exact (fits_logged (.hostRequestReadThread t r) rfl rfl).symm
  | simicsDpiRequest r =>
      have hdeque : simicsDequeRequestServerTlp r .zero = (r.ret, r.store .zero) := rfl
      rw [Receipt.accesses, simicsDpiRequestAccesses, hdeque]
      dsimp only
      by_cases hret : 0 < r.ret
      · rw [if_pos hret, allInRange_append, logAccesses_inRange_iff, memcpyAccesses_inRange_iff]
        exact (fits_copied (.simicsDpiRequest r) (if_pos hret) (decide_eq_true hret)).symm
      · rw [if_neg hret]
        exact iff_of_true allInRange_nil
          (fits_unlogged dest (if_neg hret) (decide_eq_false hret))
  | simicsDpiResponse fromCosim =>
      rw [Receipt.accesses, simicsDpiResponseAccesses, allInRange_append, logAccesses_inRange_iff,
        memcpyAccesses_inRange_iff, and_comm]
      exact (fits_copied (.simicsDpiResponse fromCosim) rfl rfl).symm
  | printSimicsPktData p =>
      have hnone : printSimicsPktDataAccesses dest.localtime p = [] := by
        rw [printSimicsPktDataAccesses, logAccesses]
        cases dest.localtime <;> rfl
      rw [Receipt.accesses, hnone]
      exact iff_of_true allInRange_nil (fits_unlogged dest rfl rfl)

/-- A reply with `sim_type` 4 that the client logs. -/
theorem host_type_out_of_range :
    ¬ ∀ (x : Receipt) (dest : LogTo), AllInRange (x.accesses dest) := by
  intro h
  have hlog := h (.cxlRelayClientThread { SimicsTransaction.zero with simType := 4 } 288)
    { verbose := false, fp := true, localtime := true }
  exact absurd hlog (by decide)

end SimConnect
