import SimConnect.AccessRules
import Mathlib.Tactic.IntervalCases
import Mathlib.Tactic.NormNum

/-!
# forward-receiver.c: the device

`issue` turns a memory transaction into one access to the cosim.  A write copies the value to
`data[0]` whatever the address is; a read takes the value from the byte lanes that the address
selects.
-/

open SimConnect.Foundation

namespace SimConnect

/-! ## The device -/

-- what issue reads of a transaction, and the value that it sets
structure Transaction where
  isRead : Bool
  size : UInt32
  value : UInt64
  deriving DecidableEq

inductive ExceptionType
  | noException
  | ioNotTaken
  | ioError
  deriving DecidableEq

structure ForwarderDevice where
  dummyReturnValue : UInt64
  useRtl : Bool
  memAccessType : Bool

-- the file-scope variables of the module, with those of the library it calls
structure ForwardReceiver where
  lib : DeviceLib
  sendPkt : SimicsTransaction
  replyPkt : SimicsTransaction
  verbose : Bool
  timeStartFlag : Bool
  timeEndFlag : Bool

/-- `>>` on a `uint64`; the processor takes the count modulo 64. -/
def shiftRight (x : UInt64) (count : ℤ) : UInt64 := x >>> UInt64.ofNat (count % 64).toNat

-- int opsize = SIM_transaction_size(t)
def Transaction.opsize (t : Transaction) : ℤ := t.size.toInt32.toInt

def readMask (opsize : ℤ) : UInt64 := shiftRight 0xffffffffffffffff (64 - opsize * 8)

def alignOf (addr : UInt64) : ℤ := (addr &&& 7).toNat

-- shifted_val & mask
def readValue (opsize : ℤ) (addr x : UInt64) : UInt64 :=
  shiftRight x (alignOf addr * 8) &&& readMask opsize

-- memcpy(&return_val, &reply_pkt.data[0], sizeof(uint64))
def loadValue (data : Vector UInt8 maxPayloadSize) : UInt64 :=
  UInt64.ofNat (leNat (data.toList.take 8))

-- memcpy(&send_pkt.data[0], &val, sizeof(uint64))
def storeValue (data : Vector UInt8 maxPayloadSize) (val : UInt64) : Vector UInt8 maxPayloadSize :=
  Vector.ofFn fun i => (leBytes 8 val.toNat).getD i (data.get i)

-- send_pkt as issue fills it
def requestPacket (dev : ForwarderDevice) (t : Transaction) (addr : UInt64) : SimicsTransaction :=
  let header : SimicsTransaction :=
    { SimicsTransaction.zero with
      packetType := if dev.memAccessType then 2 else 1
      simType := 1
      physicalAddress := addr
      r0w1 := if t.isRead then 0 else 1
      dataSize := t.size }
  if t.isRead then header else { header with data := storeValue header.data t.value }

/-- `issue`; the result comes with the transaction as the device leaves it. -/
def issue (dev : ForwarderDevice) (t : Transaction) (addr : UInt64) (m : ForwardReceiver) :
    Prog SysCall SysCall.Ret ((ExceptionType × Transaction) × ForwardReceiver) :=
  if dev.useRtl then
    let timeStartFlag := m.timeStartFlag || t.isRead
    (simicsSendAccessToCosim
      { spd := requestPacket dev t addr
        rd := .zero
        verbose := m.verbose
        timeStartFlag
        timeEndFlag := m.timeEndFlag }).run m.lib >>= fun res =>
      let m' := { m with lib := res.2, sendPkt := res.1.spd, replyPkt := res.1.rd, timeStartFlag }
      -- the result of the access is not looked at
      if t.isRead then
        .ret ((.noException,
          { t with value := readValue t.opsize addr (loadValue res.1.rd.data) }), m')
      else
        .ret ((.noException, t), m')
  else if t.isRead then
    .ret ((.noException, { t with value := readValue t.opsize addr dev.dummyReturnValue }), m)
  else
    .ret ((.noException, t), m)

/-! ## The byte lanes -/

section Lanes

theorem loadValue_storeValue (data : Vector UInt8 maxPayloadSize) (val : UInt64) :
    loadValue (storeValue data val) = val := by
  have htake : (storeValue data val).toList.take 8 = leBytes 8 val.toNat := by
    apply List.ext_getElem
    · rw [List.length_take, Vector.length_toList, leBytes_length]
      rfl
    · intro i hi _
      rw [List.length_take, Vector.length_toList] at hi
      have hi8 : i < (leBytes 8 val.toNat).length := by
        rw [leBytes_length]
        exact lt_of_lt_of_le hi (Nat.min_le_left _ _)
      rw [List.getElem_take, Vector.getElem_toList]
      simp only [storeValue, Vector.getElem_ofFn]
      exact List.getD_eq_getElem _ _ hi8
  rw [loadValue, htake, leNat_leBytes_uint64, UInt64.ofNat_toNat]

theorem shiftRight_toNat (x : UInt64) {count : ℤ} {k : ℕ} (hk : count = k) (hlt : k < 64) :
    (shiftRight x count).toNat = x.toNat / 2 ^ k := by
  have hcount : (count % 64).toNat = k := by omega
  have hmod : (UInt64.ofNat k).toNat = k := UInt64.toNat_ofNat_of_lt (by rw [UInt64.size]; omega)
  rw [shiftRight, hcount, UInt64.toNat_shiftRight, hmod, Nat.mod_eq_of_lt hlt,
    Nat.shiftRight_eq_div_pow]

theorem readMask_toNat {opsize : ℤ} {n : ℕ} (hn : opsize = n) (h1 : 1 ≤ n) (h8 : n ≤ 8) :
    (readMask opsize).toNat = 2 ^ (8 * n) - 1 := by
  rw [readMask, shiftRight_toNat _ (k := 64 - 8 * n) (by omega) (by omega)]
  interval_cases n <;> rfl

theorem alignOf_eq (addr : UInt64) : alignOf addr = (addr.toNat % 8 : ℕ) := by
  rw [alignOf, UInt64.toNat_and]
  exact congrArg Nat.cast (Nat.and_two_pow_sub_one_eq_mod addr.toNat 3)

-- the bytes that the address selects, cut to the size of the access
theorem readValue_toNat {opsize : ℤ} {n : ℕ} (hn : opsize = n) (h1 : 1 ≤ n) (h8 : n ≤ 8)
    (addr x : UInt64) :
    (readValue opsize addr x).toNat =
      x.toNat / 256 ^ (addr.toNat % 8) % 256 ^ n := by
  have hpow : ∀ m : ℕ, 2 ^ (8 * m) = 256 ^ m := fun m => by
    rw [pow_mul]
    norm_num
  have hshift : alignOf addr * 8 = (8 * (addr.toNat % 8) : ℕ) := by
    rw [alignOf_eq]
    omega
  rw [readValue, UInt64.toNat_and, shiftRight_toNat x hshift (by omega), readMask_toNat hn h1 h8,
    Nat.and_two_pow_sub_one_eq_mod, hpow, hpow]

theorem readValue_eq_iff {opsize : ℤ} {n : ℕ} (hn : opsize = n) (h1 : 1 ≤ n) (h8 : n ≤ 8)
    (addr v : UInt64) (hv : v.toNat < 2 ^ (8 * n)) :
    readValue opsize addr v = v ↔ addr.toNat % 8 = 0 ∨ v = 0 := by
  have hv' : v.toNat < 256 ^ n := by rwa [pow_mul] at hv
  rw [← UInt64.toNat_inj, readValue_toNat hn h1 h8, ← UInt64.toNat_inj (b := 0)]
  change _ ↔ _ ∨ v.toNat = 0
  have hle : v.toNat / 256 ^ (addr.toNat % 8) ≤ v.toNat := Nat.div_le_self _ _
  rw [Nat.mod_eq_of_lt (lt_of_le_of_lt hle hv')]
  constructor
  · intro h
    by_cases ha : addr.toNat % 8 = 0
    · exact Or.inl ha
    · -- an unaligned read drops at least the lowest byte
      right
      have hpow : 1 < 256 ^ (addr.toNat % 8) := Nat.one_lt_pow ha (by decide)
      by_contra hpos
      have hlt := Nat.div_lt_self (Nat.pos_of_ne_zero hpos) hpow
      omega
  · rintro (ha | h0)
    · rw [ha, pow_zero, Nat.div_one]
    · rw [h0, Nat.zero_div]

end Lanes

/-! ## The calls of one access -/

-- every request written so far is `spd`
def WritesOnly (spd : SimicsTransaction) (t : List (Σ c, SysCall.Ret c)) : Prop :=
  ∀ fd p r, ⟨.write fd p, r⟩ ∈ t → p = spd

-- every reply read so far is `r`
def ReadsOnly (r : ReadResult) (t : List (Σ c, SysCall.Ret c)) : Prop :=
  ∀ fd r', ⟨.read fd, r'⟩ ∈ t → r' = r

def NoRead (t : List (Σ c, SysCall.Ret c)) : Prop :=
  ∀ fd r, ⟨.read fd, r⟩ ∉ t

section Calls

variable {spd : SimicsTransaction} {t : List (Σ c, SysCall.Ret c)} {c : SysCall} {r : c.Ret}

theorem mem_snoc {x y : Σ c, SysCall.Ret c} (h : x ∈ t ++ [y]) : x ∈ t ∨ x = y := by
  rcases List.mem_append.mp h with hold | hnew
  · exact Or.inl hold
  · exact Or.inr (List.mem_singleton.mp hnew)

theorem WritesOnly.snoc (h : WritesOnly spd t) (hc : ∀ fd p, c = .write fd p → p = spd) :
    WritesOnly spd (t ++ [⟨c, r⟩]) := by
  intro fd p r' hmem
  rcases mem_snoc hmem with hold | hnew
  · exact h fd p r' hold
  · exact hc fd p (congrArg Sigma.fst hnew).symm

theorem NoRead.snoc (h : NoRead t) (hc : ∀ fd, c ≠ .read fd) : NoRead (t ++ [⟨c, r⟩]) := by
  intro fd r' hmem
  rcases mem_snoc hmem with hold | hnew
  · exact h fd r' hold
  · exact hc fd (congrArg Sigma.fst hnew).symm

theorem ReadsOnly.snoc {rr : ReadResult} (h : ReadsOnly rr t) (hc : ∀ fd, c ≠ .read fd) :
    ReadsOnly rr (t ++ [⟨c, r⟩]) := by
  intro fd r' hmem
  rcases mem_snoc hmem with hold | hnew
  · exact h fd r' hold
  · exact absurd (congrArg Sigma.fst hnew).symm (hc fd)

end Calls

section Plan

variable (spd : SimicsTransaction)

-- a call that is no write and no read
theorem trace_step {spd : SimicsTransaction} {t t' : List (Σ c, SysCall.Ret c)} {c : SysCall}
    {r : c.Ret} (hwrite : ∀ fd p, c ≠ .write fd p) (hread : ∀ fd, c ≠ .read fd)
    (hcall : (Prog.recorder SysCall SysCall.Ret).call t c r t') (h : WritesOnly spd t ∧ NoRead t) :
    WritesOnly spd t' ∧ NoRead t' := by
  rw [show t' = t ++ [⟨c, r⟩] from hcall]
  exact ⟨h.1.snoc fun fd p hc => absurd hc (hwrite fd p), h.2.snoc hread⟩

theorem idle_indifferent : Indifferent (Prog.recorder SysCall SysCall.Ret) (WritesOnly spd)
    (fun t => WritesOnly spd t ∧ NoRead t) where
  toSteady := Prog.recorder_steady fun _ h => h.1
  quiet := by
    intro t c r t' hquiet hcall h
    refine trace_step (fun fd p hc => ?_) (fun fd hc => ?_) hcall h
    · subst hc
      exact hquiet
    · subst hc
      exact hquiet

theorem done_indifferent (rr : ReadResult) : Indifferent (Prog.recorder SysCall SysCall.Ret)
    (WritesOnly spd) (fun t => WritesOnly spd t ∧ ReadsOnly rr t) where
  toSteady := Prog.recorder_steady fun _ h => h.1
  quiet := by
    intro t c r t' hquiet hcall h
    rw [show t' = t ++ [⟨c, r⟩] from hcall]
    refine ⟨h.1.snoc fun fd p hc => ?_, h.2.snoc fun fd hc => ?_⟩
    · subst hc
      exact hquiet.elim
    · subst hc
      exact hquiet

/-- An access seen from its calls alone: it writes nothing but `spd`, and reads at most once. -/
def tracePlan : AccessPlan (Prog.recorder SysCall SysCall.Ret) (WritesOnly spd) spd where
  idle := fun t => WritesOnly spd t ∧ NoRead t
  half := fun _ t => WritesOnly spd t ∧ NoRead t
  opened := fun _ _ t => WritesOnly spd t ∧ NoRead t
  sent := fun _ t => WritesOnly spd t ∧ NoRead t
  done := fun r t => WritesOnly spd t ∧ ReadsOnly r t
  fails := True
  idle_ind := idle_indifferent spd
  half_ind := fun _ => idle_indifferent spd
  opened_ind := fun _ _ => idle_indifferent spd
  sent_ind := fun _ => idle_indifferent spd
  done_ind := done_indifferent spd
  path_unset := fun _ _ _ => trivial
  open_failed := fun _ _ _ _ _ _ => trivial
  open_request := by
    intro t dir fd t' h hcall
    rw [ite_self]
    exact trace_step (fun _ _ => SysCall.noConfusion) (fun _ => SysCall.noConfusion) hcall h
  open_reply := by
    intro t dir fd fd' t' h hcall
    rw [ite_self]
    exact trace_step (fun _ _ => SysCall.noConfusion) (fun _ => SysCall.noConfusion) hcall h
  close_request := by
    intro t fd r t' h hcall
    exact trace_step (fun _ _ => SysCall.noConfusion) (fun _ => SysCall.noConfusion) hcall h
  write := by
    intro t fd fd' r t' h hcall
    rw [show t' = t ++ [⟨.write fd spd, r⟩] from hcall]
    refine ⟨h.1.snoc fun fd p hc => ?_, h.2.snoc fun _ => SysCall.noConfusion⟩
    injection hc with _ hp
    exact hp.symm
  read := by
    intro t fd r t' h hcall
    rw [show t' = t ++ [⟨.read fd, r⟩] from hcall]
    refine ⟨h.1.snoc fun _ _ hc => absurd hc SysCall.noConfusion, fun fd' r' hmem => ?_⟩
    rcases mem_snoc hmem with hold | hnew
    · exact absurd hold (h.2 fd' r')
    · cases hnew
      rfl

end Plan

section Issue

variable {dev : ForwarderDevice} {t : Transaction} {addr : UInt64} {m : ForwardReceiver}

-- the packet of an access
def sentPacket (dev : ForwarderDevice) (t : Transaction) (addr : UInt64) (m : ForwardReceiver) :
    SimicsTransaction :=
  { requestPacket dev t addr with packetNumber := m.lib.simicsPacketNo }

theorem issue_wp (hrtl : dev.useRtl = true) :
    (issue dev t addr m).wp (Prog.recorder SysCall SysCall.Ret)
      (WritesOnly (sentPacket dev t addr m))
      (fun x tr => t.isRead = true → ∀ fd q, ⟨.read fd, .packet q⟩ ∈ tr →
        x.1.2.value = readValue t.opsize addr (loadValue q.data)) [] := by
  rw [issue, if_pos hrtl]
  have hidle : (tracePlan (sentPacket dev t addr m)).idle [] :=
    ⟨fun _ _ _ h => absurd h List.not_mem_nil, fun _ _ => List.not_mem_nil⟩
  refine Prog.wp_bind (Prog.wp_mono ?_ (simicsSendAccessToCosim_wp _ m.lib
    (tracePlan (sentPacket dev t addr m)) hidle))
  rintro ⟨res, lib⟩ tr ⟨_, hends⟩
  have hwrites : WritesOnly (sentPacket dev t addr m) tr := by
    rcases hends with ⟨_, _, h⟩ | ⟨r, _, h⟩
    · exact h.1
    · exact h.1
  have hsteady : Steady (Prog.recorder SysCall SysCall.Ret)
      (WritesOnly (sentPacket dev t addr m)) (fun tr' => tr' = tr) :=
    Prog.recorder_steady fun tr' h => by rw [h]; exact hwrites
  by_cases hread : t.isRead = true
  · rw [if_pos hread]
    refine Prog.wp_ret hsteady (fun tr' h _ fd q hmem => ?_) rfl
    rw [h] at hmem
    rcases hends with ⟨_, _, hnone⟩ | ⟨r, hres, hdone⟩
    · exact absurd hmem (hnone.2 fd _)
    · -- the one read of the access is what reply_pkt holds
      have hr := hdone.2 fd _ hmem
      have hrd : res.rd = r.store .zero := congrArg AccessResult.rd hres
      dsimp only
      rw [hrd, ← hr, ReadResult.store_packet]
  · rw [if_neg hread]
    exact Prog.wp_ret hsteady (fun _ _ h => absurd h hread) rfl

theorem issue_enqueues (hrtl : dev.useRtl = true) {tr : List (Σ c, SysCall.Ret c)}
    {o : Option ((ExceptionType × Transaction) × ForwardReceiver)}
    (htr : (issue dev t addr m).Trace tr o) {fd : ℤ} {p : SimicsTransaction} {r : ℤ}
    (hmem : ⟨.write fd p, r⟩ ∈ tr) : p = sentPacket dev t addr m :=
  (htr.of_wp (issue_wp hrtl)).1 fd p r hmem

theorem issue_read_value (hrtl : dev.useRtl = true) (hread : t.isRead = true)
    {tr : List (Σ c, SysCall.Ret c)} {x : (ExceptionType × Transaction) × ForwardReceiver}
    (htr : (issue dev t addr m).Trace tr (some x)) {fd : ℤ} {q : SimicsTransaction}
    (hmem : ⟨.read fd, .packet q⟩ ∈ tr) :
    x.1.2.value = readValue t.opsize addr (loadValue q.data) :=
  (htr.of_wp (issue_wp hrtl)).2 x rfl hread fd q hmem

end Issue

theorem opsize_eq {t : Transaction} (h1 : 1 ≤ t.size.toNat) (h8 : t.size.toNat ≤ 8) :
    t.opsize = t.size.toNat := by
  have hsize : t.size = UInt32.ofNat t.size.toNat := UInt32.ofNat_toNat.symm
  rw [Transaction.opsize, hsize]
  interval_cases t.size.toNat <;> rfl

/-- A read of `size` bytes that gets the data of a write of `size` bytes at the same address returns
the value written exactly when the address is a multiple of 8 or the value is 0. -/
theorem issue_round_trip_iff {dev : ForwarderDevice} (hrtl : dev.useRtl = true) (addr : UInt64)
    {size : UInt32} (h1 : 1 ≤ size.toNat) (h8 : size.toNat ≤ 8)
    {v : UInt64} (hv : v.toNat < 2 ^ (8 * size.toNat))
    -- the write
    {mw : ForwardReceiver} {tw : List (Σ c, SysCall.Ret c)}
    {ow : Option ((ExceptionType × Transaction) × ForwardReceiver)}
    (hwrite : (issue dev { isRead := false, size, value := v } addr mw).Trace tw ow)
    {fd : ℤ} {p : SimicsTransaction} {retval : ℤ} (hp : ⟨.write fd p, retval⟩ ∈ tw)
    -- the read
    {mr : ForwardReceiver} {old : UInt64} {tr : List (Σ c, SysCall.Ret c)}
    {x : (ExceptionType × Transaction) × ForwardReceiver}
    (hread : (issue dev { isRead := true, size, value := old } addr mr).Trace tr (some x))
    {fd' : ℤ} {q : SimicsTransaction} (hq : ⟨.read fd', .packet q⟩ ∈ tr) (hdata : q.data = p.data) :
    x.1.2.value = v ↔ addr.toNat % 8 = 0 ∨ v = 0 := by
  have hpdata : loadValue p.data = v := by
    rw [issue_enqueues hrtl hwrite hp]
    exact loadValue_storeValue _ v
  rw [issue_read_value hrtl rfl hread hq, hdata, hpdata]
  exact readValue_eq_iff (opsize_eq h1 h8) h1 h8 addr v hv

-- every call succeeds, and the reply is `q`
def answerWith (q : SimicsTransaction) : (c : SysCall) → c.Ret
  | .getenv _ => some "relay"
  | .strbuf _ _ => ()
  | .fopen _ => true
  | .localtime => true
  | .fprintf _ => ()
  | .fflush _ => ()
  | .open path => if path.pipe = .requestClient then 3 else 4
  | .close _ => ()
  | .write _ _ => simicsPktSize
  | .read _ => .packet q

def ForwardReceiver.init : ForwardReceiver where
  lib := .init
  sendPkt := .zero
  replyPkt := .zero
  verbose := false
  timeStartFlag := false
  timeEndFlag := false

def rtlDevice : ForwarderDevice where
  dummyReturnValue := 0xfedcba9876543210
  useRtl := true
  memAccessType := false

-- a write of `v`, then a read that gets the written packet back
theorem exists_write_then_read (addr : UInt64) (size : UInt32) (v : UInt64) :
    ∃ tw ow p tr x q,
      (issue rtlDevice { isRead := false, size, value := v } addr .init).Trace tw ow ∧
      ⟨.write 3 p, (simicsPktSize : ℤ)⟩ ∈ tw ∧
      (issue rtlDevice { isRead := true, size, value := 0 } addr .init).Trace tr (some x) ∧
      ⟨.read 4, .packet q⟩ ∈ tr ∧ q.data = p.data := by
  let p := sentPacket rtlDevice { isRead := false, size, value := v } addr .init
  have hwrite := Prog.trace_runWith (fun (_ : Unit) c => (answerWith .zero c, ()))
    (issue rtlDevice { isRead := false, size, value := v } addr .init) ()
  have hread := Prog.trace_runWith (fun (_ : Unit) c => (answerWith p c, ()))
    (issue rtlDevice { isRead := true, size, value := 0 } addr .init) ()
  refine ⟨_, _, p, _, _, p, hwrite, ?_, hread, ?_, rfl⟩
  · exact List.mem_of_getElem? (i := 12) rfl
  · exact List.mem_of_getElem? (i := 16) rfl

theorem issue_round_trip_aligned :
    ∃ (tr : List (Σ c, SysCall.Ret c)) (x : (ExceptionType × Transaction) × ForwardReceiver),
      (issue rtlDevice { isRead := true, size := 4, value := 0 } 8 .init).Trace tr (some x) ∧
        x.1.2.value = 0x12345678 := by
  obtain ⟨tw, ow, p, tr, x, q, hwrite, hp, hread, hq, hdata⟩ :=
    exists_write_then_read 8 4 0x12345678
  exact ⟨tr, x, hread, (issue_round_trip_iff rfl 8 (by decide) (by decide) (by decide) hwrite hp
    hread hq hdata).mpr (Or.inl rfl)⟩

/-- One byte written at address 1 comes back as 0. -/
theorem issue_unaligned_byte_lost :
    ¬ ∀ (dev : ForwarderDevice), dev.useRtl = true → ∀ (addr : UInt64) (size : UInt32),
      1 ≤ size.toNat → size.toNat ≤ 8 → ∀ v : UInt64, v.toNat < 2 ^ (8 * size.toNat) →
      ∀ (mw : ForwardReceiver) (tw : List (Σ c, SysCall.Ret c))
        (ow : Option ((ExceptionType × Transaction) × ForwardReceiver)),
        (issue dev { isRead := false, size, value := v } addr mw).Trace tw ow →
      ∀ (fd : ℤ) (p : SimicsTransaction) (retval : ℤ), ⟨.write fd p, retval⟩ ∈ tw →
      ∀ (mr : ForwardReceiver) (old : UInt64) (tr : List (Σ c, SysCall.Ret c))
        (x : (ExceptionType × Transaction) × ForwardReceiver),
        (issue dev { isRead := true, size, value := old } addr mr).Trace tr (some x) →
      ∀ (fd' : ℤ) (q : SimicsTransaction), ⟨.read fd', .packet q⟩ ∈ tr → q.data = p.data →
        x.1.2.value = v := by
  intro h
  obtain ⟨tw, ow, p, tr, x, q, hwrite, hp, hread, hq, hdata⟩ := exists_write_then_read 1 1 1
  have hvalue := h rtlDevice rfl 1 1 (by decide) (by decide) 1 (by decide) _ tw ow hwrite _ p _ hp _
    _ tr x hread _ q hq hdata
  have hpdata : loadValue p.data = 1 := by
    rw [issue_enqueues rfl hwrite hp]
    exact loadValue_storeValue _ 1
  rw [issue_read_value rfl rfl hread hq, hdata, hpdata] at hvalue
  exact absurd hvalue (by decide)

end SimConnect
