import SimConnect.DpiBoundary
import SimConnect.PacketLayout

/-!
# dpi_sv.sv: the RTL side

`run` answers every request with a packet that it builds in the SystemVerilog struct.  The two
functions of dpi_sv.c work on the memory of that struct with the offsets of C, so the shift of
eight bytes that they bring into the request is undone in the response.
-/

open SimConnect.Foundation

namespace SimConnect

/-! ## The request in memory -/

structure DpiRequestMem where
  ret : ℤ
  lib : DpiLib
  mem : Mem

/-- `simics_dpi_request` on the memory `m` of its argument. -/
def simicsDpiRequestMem (lib : DpiLib) (r : ReadResult) (m : Mem) : DpiRequestMem :=
  let request := simicsDpiRequest lib r (readThroughC m)
  { ret := request.ret
    lib := request.lib
    mem := if request.ret < 0 then m else storeThroughC m request.lib.requestData }

/-! ## run -/

-- what `rsp.data[i]` is set to; a load past the end of an array gives 0
def responseByte (req : SvTransaction) (i : ℕ) : UInt8 :=
  if req.r0w1 = 0 then UInt8.ofNat (req.packetNumber.toNat + i) else (req.data[i]?).getD 0

/-- The `for` loop after `n` rounds; a store past the end of `rsp.data` is dropped. -/
def fillData (req : SvTransaction) (data : Vector UInt8 maxPayloadSize) :
    ℕ → Vector UInt8 maxPayloadSize
  | 0 => data
  | n + 1 => (fillData req data n).setIfInBounds n (responseByte req n)

-- copy req into rsp
def copyRequest (req rsp : SvTransaction) : SvTransaction where
  packetNumber := req.packetNumber
  packetType := req.packetType
  simType := req.simType
  baseAddress := req.baseAddress
  physicalAddress := req.physicalAddress
  r0w1 := req.r0w1
  dataSize := req.dataSize
  data := fillData req rsp.data req.dataSize.toNat

/-- What outlives a round of `forever`: the static packets of dpi_sv.c and the variable `rsp`. -/
structure RtlSide where
  dpi : DpiLib
  rsp : SvTransaction

/-- What `run` meets in one round: the result of the read from `request_server`, the memory that its
two arguments are passed in, and the result of the write to `reply_server`. -/
structure RtlRound where
  read : ReadResult
  reqMem : Mem
  rspMem : Mem
  retval : ℤ

namespace RtlSide

-- up to the call of simics_dpi_response; `none` is $finish
def receive (s : RtlSide) (r : ReadResult) (m : Mem) : Option RtlSide :=
  let request := simicsDpiRequestMem s.dpi r m
  if request.ret < 0 then none
  else
    let req := readThroughSv request.mem
    if 0 < req.packetNumber then some { dpi := request.lib, rsp := copyRequest req s.rsp }
    else none

-- simics_dpi_response(rsp)
def respond (s : RtlSide) (m : Mem) (retval : ℤ) : DpiResponse :=
  simicsDpiResponse s.dpi (readThroughC (storeThroughSv m s.rsp)) retval

/-- One round, with the packet that it enqueues; the result of the response is not looked at. -/
def round (s : RtlSide) (r : RtlRound) : Option (SimicsTransaction × RtlSide) :=
  (s.receive r.read r.reqMem).map fun s₁ =>
    let response := s₁.respond r.rspMem r.retval
    (response.enqueued, { s₁ with dpi := response.lib })

-- the packets that `run` enqueues
def run : RtlSide → List RtlRound → List SimicsTransaction
  | _, [] => []
  | s, r :: rounds =>
      match s.round r with
      | none => []
      | some (reply, s') => reply :: run s' rounds

end RtlSide

/-! ## The request as the two sides see it -/

theorem simicsDpiRequest_ret (lib : DpiLib) (r : ReadResult) (toCosim : SimicsTransaction) :
    (simicsDpiRequest lib r toCosim).ret = if 0 < r.ret then 1 else -1 := by
  have hdeque : (simicsDequeRequestServerTlp r .zero).1 = r.ret := rfl
  rw [simicsDpiRequest, hdeque]
  by_cases hret : 0 < r.ret
  · rw [if_pos hret, if_pos hret]
  · rw [if_neg hret, if_neg hret]

theorem simicsDpiRequestMem_of_pos (lib : DpiLib) {r : ReadResult} (m : Mem) (hpos : 0 < r.ret) :
    simicsDpiRequestMem lib r m =
      { ret := 1
        lib := { lib with requestData := r.store .zero }
        mem := storeThroughC m (r.store .zero) } := by
  have hret := simicsDpiRequest_ret lib r (readThroughC m)
  rw [if_pos hpos] at hret
  have hlib : (simicsDpiRequest lib r (readThroughC m)).lib =
      { lib with requestData := r.store .zero } := by
    have hdeque : simicsDequeRequestServerTlp r .zero = (r.ret, r.store .zero) := rfl
    rw [simicsDpiRequest, hdeque, if_pos hpos]
  rw [simicsDpiRequestMem, hret, hlib, if_neg (by decide)]

theorem simicsDpiRequestMem_of_not_pos (lib : DpiLib) {r : ReadResult} (m : Mem)
    (hpos : ¬ 0 < r.ret) : (simicsDpiRequestMem lib r m).ret = -1 := by
  have hret := simicsDpiRequest_ret lib r (readThroughC m)
  rwa [if_neg hpos] at hret

-- the fields that C stores are those that C reads back
theorem readThroughC_storeThroughC (m : Mem) (p : SimicsTransaction)
    (hs : p.dataSize.toNat ≤ maxPayloadSize) :
    readThroughC (storeThroughC m p) =
      { p with
        pad := (readThroughC m).pad
        data := memcpyData (readThroughC m).data p.data p.dataSize } := by
  have hword (off : ℕ) (x : UInt32) (hf : ⟨off, 4, x.toNat⟩ ∈ cHeader p) :=
    storeThroughC_word m p x hf
  have hpn := hword 0 p.packetNumber (by simp [cHeader, cOffset_eq])
  have hpt := hword 4 p.packetType (by simp [cHeader, cOffset_eq])
  have hst := hword 8 p.simType (by simp [cHeader, cOffset_eq])
  have hrw := hword 24 p.r0w1 (by simp [cHeader, cOffset_eq])
  have hds := hword 28 p.dataSize (by simp [cHeader, cOffset_eq])
  have hpa : loadLE (storeThroughC m p) 16 8 = p.physicalAddress.toNat := by
    have h : (⟨16, 8, p.physicalAddress.toNat⟩ : Field) ∈ cHeader p := by
      simp [cHeader, cOffset_eq]
    exact (congrArg leNat (storeThroughC_header m p h)).trans (leNat_leBytes_uint64 _)
  -- no store touches the padding
  have hpad : loadLE (storeThroughC m p) 12 4 = loadLE m 12 4 := by
    apply congrArg leNat
    apply loadBytes_congr
    intro i hi
    rw [storeThroughC, storeBytes_outside _ _ _ _ (by rw [cOffset_eq]; left; dsimp only; omega)]
    apply storeFields_outside
    intro f hf
    simp only [cHeader, cOffset_eq, List.mem_cons, List.not_mem_nil, or_false] at hf
    rcases hf with rfl | rfl | rfl | rfl | rfl | rfl <;> dsimp only <;> omega
  ext1
  case data =>
    apply Vector.ext
    intro i hi
    simp only [readThroughC, Vector.getElem_ofFn, cOffset_eq]
    rw [storeThroughC_window m p hs, payloadWindow]
    by_cases hlt : i < p.dataSize.toNat
    · rw [if_pos hlt, memcpyData_lt hi hlt,
        List.getD_eq_getElem _ _ (by rwa [Vector.length_toList]),
        Vector.getElem_toList]
    · rw [if_neg hlt, memcpyData_ge hi (Nat.le_of_not_lt hlt), Vector.getElem_ofFn]
  all_goals simp only [readThroughC, cOffset_eq, hpn, hpt, hst, hrw, hds, hpa, hpad,
    Nat.reduceAdd, UInt32.ofNat_toNat, UInt64.ofNat_toNat]

/-- The stores of `simics_dpi_request` into memory give the packet that DpiBoundary.lean describes.
-/
theorem readThroughC_simicsDpiRequestMem (lib : DpiLib) (r : ReadResult) (m : Mem)
    (hs : (r.store .zero).dataSize.toNat ≤ maxPayloadSize) :
    readThroughC (simicsDpiRequestMem lib r m).mem =
      (simicsDpiRequest lib r (readThroughC m)).toCosim := by
  have hdeque : simicsDequeRequestServerTlp r .zero = (r.ret, r.store .zero) := rfl
  by_cases hpos : 0 < r.ret
  · rw [simicsDpiRequestMem_of_pos lib m hpos, readThroughC_storeThroughC m _ hs, simicsDpiRequest,
      hdeque, if_pos hpos]
  · have hret := simicsDpiRequestMem_of_not_pos lib m hpos
    have hmem : (simicsDpiRequestMem lib r m).mem = m := if_pos (hret.trans_lt (by decide))
    rw [hmem, simicsDpiRequest, hdeque, if_neg hpos]

/-! ## The response -/

-- the packet that simics_dpi_response finds after the request `p`
def echoView (reqMem rspMem : Mem) (rsp : SvTransaction) (p : SimicsTransaction) :
    SimicsTransaction :=
  readThroughC (storeThroughSv rspMem (copyRequest (readThroughSv (storeThroughC reqMem p)) rsp))

section EchoView

variable (reqMem rspMem : Mem) (rsp : SvTransaction) {p : SimicsTransaction}
  (hs : p.dataSize.toNat ≤ maxPayloadSize)

include hs

/-- Every header field comes back: base_address carries the physical address, and physical_address
carries r0w1 with data_size. -/
theorem echoView_header :
    (echoView reqMem rspMem rsp p).packetNumber = p.packetNumber ∧
      (echoView reqMem rspMem rsp p).packetType = p.packetType ∧
      (echoView reqMem rspMem rsp p).simType = p.simType ∧
      (echoView reqMem rspMem rsp p).physicalAddress = p.physicalAddress ∧
      (echoView reqMem rspMem rsp p).r0w1 = p.r0w1 ∧
      (echoView reqMem rspMem rsp p).dataSize = p.dataSize := by
  have hreq := readThroughSv_storeThroughC reqMem p hs
  obtain ⟨hpn, hpt, hst, hpa, hword, _⟩ := readThroughC_storeThroughSv rspMem
    (copyRequest (readThroughSv (storeThroughC reqMem p)) rsp)
  have hr := p.r0w1.toNat_lt
  have hd := p.dataSize.toNat_lt
  have hr' := (echoView reqMem rspMem rsp p).r0w1.toNat_lt
  have hd' := (echoView reqMem rspMem rsp p).dataSize.toNat_lt
  have hwide : p.r0w1.toNat + 2 ^ 32 * p.dataSize.toNat < 2 ^ 64 := by omega
  have hsum : (echoView reqMem rspMem rsp p).r0w1.toNat +
      2 ^ 32 * (echoView reqMem rspMem rsp p).dataSize.toNat =
        p.r0w1.toNat + 2 ^ 32 * p.dataSize.toNat := by
    refine hword.trans ?_
    simp only [copyRequest, hreq, UInt64.toNat_ofNat_of_lt' hwide]
  refine ⟨?_, ?_, ?_, ?_, UInt32.toNat_inj.mp (by omega), UInt32.toNat_inj.mp (by omega)⟩
  · exact hpn.trans (by simp only [copyRequest, hreq])
  · exact hpt.trans (by simp only [copyRequest, hreq])
  · exact hst.trans (by simp only [copyRequest, hreq])
  · exact hpa.trans (by simp only [copyRequest, hreq])

-- the first eight bytes of the payload travel in r0w1 and data_size of the SystemVerilog struct
theorem echoView_data_lt {i : ℕ} (hi : i < maxPayloadSize) (h8 : i < 8) :
    (echoView reqMem rspMem rsp p).data[i] = payloadWindow p reqMem i := by
  have hdata := (readThroughC_storeThroughSv rspMem
    (copyRequest (readThroughSv (storeThroughC reqMem p)) rsp)).2.2.2.2.2 i hi
  have hreq := readThroughSv_storeThroughC reqMem p hs
  have hword : ∀ off, leBytes 4 (UInt32.ofNat (loadLE (payloadWindow p reqMem) off 4)).toNat =
      loadBytes (payloadWindow p reqMem) off 4 := by
    intro off
    have hlen := loadBytes_length (payloadWindow p reqMem) off 4
    rw [UInt32.toNat_ofNat_of_lt' (loadLE_lt _ off 4), loadLE]
    have hback := leBytes_leNat (loadBytes (payloadWindow p reqMem) off 4)
    rwa [hlen] at hback
  refine hdata.trans ?_
  simp only [copyRequest, hreq, hword]
  rw [← List.append_assoc, ← loadBytes_add, List.getD_append _ _ _ _ (by rwa [loadBytes_length]),
    List.getD_eq_getElem _ _ (by rwa [loadBytes_length])]
  simp only [loadBytes, List.getElem_map, List.getElem_range, Nat.zero_add]

end EchoView

/-! ## What the RTL side enqueues -/

theorem dpiResponseData_eq_iff {p q : SimicsTransaction} (hpn : q.packetNumber = p.packetNumber)
    (hpt : q.packetType = p.packetType) (hst : q.simType = p.simType)
    (hpa : q.physicalAddress = p.physicalAddress) (hds : q.dataSize = p.dataSize) :
    dpiResponseData q = dpiResponseData p ↔
      ∀ (i : ℕ) (_ : i < maxPayloadSize), i < p.dataSize.toNat → q.data[i] = p.data[i] := by
  have hheader : dpiResponseData q = dpiResponseData p ↔
      (dpiResponseData q).data = (dpiResponseData p).data := by
    constructor
    · exact congrArg SimicsTransaction.data
    · intro hdata
      ext1
      case data => exact hdata
      all_goals simp only [dpiResponseData, hpn, hpt, hst, hpa, hds]
  rw [hheader]
  constructor
  · intro h i hi hlt
    have hbyte := congrArg (fun data => data[i]) h
    simp only [dpiResponseData] at hbyte
    rwa [memcpyData_lt hi (by rwa [hds]), memcpyData_lt hi hlt] at hbyte
  · intro h
    apply Vector.ext
    intro i hi
    simp only [dpiResponseData]
    by_cases hlt : i < p.dataSize.toNat
    · rw [memcpyData_lt hi (by rwa [hds]), memcpyData_lt hi hlt, h i hi hlt]
    · have hge := Nat.le_of_not_lt hlt
      rw [memcpyData_ge hi (by rwa [hds]), memcpyData_ge hi hge]

theorem dpiResponseData_echoView_iff (reqMem rspMem : Mem) (rsp : SvTransaction)
    {p : SimicsTransaction} (hs : p.dataSize.toNat ≤ maxPayloadSize) :
    dpiResponseData (echoView reqMem rspMem rsp p) = dpiResponseData p ↔
      ∀ (i : ℕ) (_ : i < maxPayloadSize), i < p.dataSize.toNat →
        (echoView reqMem rspMem rsp p).data[i] = p.data[i] := by
  obtain ⟨hpn, hpt, hst, hpa, _, hds⟩ := echoView_header reqMem rspMem rsp hs
  exact dpiResponseData_eq_iff hpn hpt hst hpa hds

theorem payloadWindow_lt (p : SimicsTransaction) (m : Mem) {i : ℕ} (hi : i < maxPayloadSize)
    (h : i < p.dataSize.toNat) : payloadWindow p m i = p.data[i] := by
  rw [payloadWindow, if_pos h, List.getD_eq_getElem _ _ (by rwa [Vector.length_toList]),
    Vector.getElem_toList]

-- a payload that the two displaced words hold comes back whatever else there is in memory
theorem dpiResponseData_echoView (reqMem rspMem : Mem) (rsp : SvTransaction)
    {p : SimicsTransaction} (h8 : p.dataSize.toNat ≤ 8) :
    dpiResponseData (echoView reqMem rspMem rsp p) = dpiResponseData p := by
  have hs : p.dataSize.toNat ≤ maxPayloadSize := le_trans h8 (by decide)
  apply (dpiResponseData_echoView_iff reqMem rspMem rsp hs).mpr
  intro i hi hlt
  rw [echoView_data_lt reqMem rspMem rsp hs hi (lt_of_lt_of_le hlt h8),
    payloadWindow_lt p reqMem hi hlt]

-- the request that a read brings in, if run does not finish on it
def ReadResult.request? (r : ReadResult) : Option SimicsTransaction :=
  if 0 < r.ret ∧ 0 < (r.store .zero).packetNumber then some (r.store .zero) else none

theorem ReadResult.request?_packet (p : SimicsTransaction) :
    (ReadResult.packet p).request? = if 0 < p.packetNumber then some p else none := by
  have hpos : (0 : ℤ) < (simicsPktSize : ℕ) := by decide
  rw [ReadResult.request?, ReadResult.packet_ret, ReadResult.store_packet]
  simp only [hpos, true_and]

namespace RtlSide

theorem receive_eq (s : RtlSide) (r : ReadResult) (m : Mem) :
    s.receive r m = r.request?.map fun p =>
      { dpi := { s.dpi with requestData := p }
        rsp := copyRequest (readThroughSv (storeThroughC m p)) s.rsp } := by
  by_cases hpos : 0 < r.ret
  · have hnumber : (readThroughSv (storeThroughC m (r.store .zero))).packetNumber =
        (r.store .zero).packetNumber := by
      -- the one field that both layouts have at the front
      have hword : loadLE (storeThroughC m (r.store .zero)) 0 4 =
          (r.store .zero).packetNumber.toNat :=
        storeThroughC_word m (r.store .zero) _ (by simp [cHeader, cOffset_eq])
      simp only [readThroughSv, svOffset_eq, hword, UInt32.ofNat_toNat]
    rw [receive, simicsDpiRequestMem_of_pos s.dpi m hpos, ReadResult.request?]
    dsimp only
    rw [if_neg (by decide), hnumber]
    by_cases hnum : 0 < (r.store .zero).packetNumber
    · rw [if_pos hnum, if_pos ⟨hpos, hnum⟩, Option.map_some]
    · rw [if_neg hnum, if_neg (fun h => hnum h.2), Option.map_none]
  · rw [receive, simicsDpiRequestMem_of_not_pos s.dpi m hpos, if_pos (by decide),
      ReadResult.request?, if_neg (fun h => hpos h.1), Option.map_none]

theorem round_reply (s : RtlSide) (r : RtlRound) :
    (s.round r).map Prod.fst =
      r.read.request?.map fun p => dpiResponseData (echoView r.reqMem r.rspMem s.rsp p) := by
  rw [round, receive_eq s r.read r.reqMem]
  cases r.read.request? with
  | none => rfl
  | some p => rfl

end RtlSide

def RtlSide.init : RtlSide where
  dpi := ⟨.zero, .zero⟩
  rsp := .zero

end SimConnect
