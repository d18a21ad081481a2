import SimConnect.Pipes

/-!
# dpi_sv.c: packets between the pipes and the SystemVerilog side

`simics_dpi_request` and `simics_dpi_response` copy a packet field by field.  The request direction
keeps every field; the response direction assigns `sim_type` twice and `r0w1` never, so what it
enqueues always has the direction of a read.
-/

namespace SimConnect

-- memcpy of the first n payload bytes
def memcpyData (dst src : Vector UInt8 maxPayloadSize) (n : UInt32) : Vector UInt8 maxPayloadSize :=
  Vector.ofFn fun i => if i.val < n.toNat then src[i] else dst[i]

theorem memcpyData_lt {dst src : Vector UInt8 maxPayloadSize} {n : UInt32} {i : ℕ}
    (hi : i < maxPayloadSize) (h : i < n.toNat) : (memcpyData dst src n)[i] = src[i] := by
  simp only [memcpyData, Vector.getElem_ofFn, Fin.getElem_fin, if_pos h]

theorem memcpyData_ge {dst src : Vector UInt8 maxPayloadSize} {n : UInt32} {i : ℕ}
    (hi : i < maxPayloadSize) (h : n.toNat ≤ i) : (memcpyData dst src n)[i] = dst[i] := by
  simp only [memcpyData, Vector.getElem_ofFn, Fin.getElem_fin, if_neg (Nat.not_lt.mpr h)]

/-! ## The two functions -/

-- the static simics_data of each function
structure DpiLib where
  requestData : SimicsTransaction
  responseData : SimicsTransaction
  deriving DecidableEq

structure DpiRequest where
  ret : ℤ
  lib : DpiLib
  toCosim : SimicsTransaction
  deriving DecidableEq

/-- `simics_dpi_request`; `r` is the result of the read from `request_server`. -/
def simicsDpiRequest (lib : DpiLib) (r : ReadResult) (toCosim : SimicsTransaction) : DpiRequest :=
  -- memset(&simics_data, 0, ..) comes before the dequeue
  let dequeued := simicsDequeRequestServerTlp r .zero
  let simicsData := dequeued.2
  if 0 < dequeued.1 then
    { ret := 1
      lib := { lib with requestData := simicsData }
      toCosim :=
        { toCosim with
          packetNumber := simicsData.packetNumber
          packetType := simicsData.packetType
          simType := simicsData.simType
          physicalAddress := simicsData.physicalAddress
          r0w1 := simicsData.r0w1
          dataSize := simicsData.dataSize
          data := memcpyData toCosim.data simicsData.data simicsData.dataSize } }
  else
    { ret := -1, lib := { lib with requestData := simicsData }, toCosim }

structure DpiResponse where
  ret : ℤ
  lib : DpiLib
  enqueued : SimicsTransaction
  deriving DecidableEq

-- what simics_dpi_response leaves in its static packet
def dpiResponseData (fromCosim : SimicsTransaction) : SimicsTransaction :=
  { SimicsTransaction.zero with
    packetNumber := fromCosim.packetNumber
    packetType := fromCosim.packetType
    simType := fromCosim.simType
    physicalAddress := fromCosim.physicalAddress
    -- the source assigns sim_type here once more; no statement assigns r0w1
    dataSize := fromCosim.dataSize
    data := memcpyData SimicsTransaction.zero.data fromCosim.data fromCosim.dataSize }

/-- `simics_dpi_response`; `retval` is the result of the write to `reply_server`. -/
def simicsDpiResponse (lib : DpiLib) (fromCosim : SimicsTransaction) (retval : ℤ) : DpiResponse :=
  let simicsData := dpiResponseData fromCosim
  { ret := if (simicsEnqueReplyServerTlp retval simicsData).isNone then -1 else 1
    lib := { lib with responseData := simicsData }
    enqueued := simicsData }

/-! ## What each direction keeps -/

/-- `q` has the six header fields of `p` and its payload. -/
structure SamePacket (p q : SimicsTransaction) : Prop where
  packetNumber : q.packetNumber = p.packetNumber
  packetType : q.packetType = p.packetType
  simType : q.simType = p.simType
  physicalAddress : q.physicalAddress = p.physicalAddress
  r0w1 : q.r0w1 = p.r0w1
  dataSize : q.dataSize = p.dataSize
  data : ∀ (i : ℕ) (_ : i < maxPayloadSize), i < p.dataSize.toNat → q.data[i] = p.data[i]

theorem SamePacket.trans {p q r : SimicsTransaction} (hpq : SamePacket p q) (hqr : SamePacket q r) :
    SamePacket p r where
  packetNumber := hqr.packetNumber.trans hpq.packetNumber
  packetType := hqr.packetType.trans hpq.packetType
  simType := hqr.simType.trans hpq.simType
  physicalAddress := hqr.physicalAddress.trans hpq.physicalAddress
  r0w1 := hqr.r0w1.trans hpq.r0w1
  dataSize := hqr.dataSize.trans hpq.dataSize
  data := fun i hi h => (hqr.data i hi (by rw [hpq.dataSize]; exact h)).trans (hpq.data i hi h)

section Request

variable (lib : DpiLib) (p toCosim : SimicsTransaction)

theorem simicsDpiRequest_packet :
    (simicsDpiRequest lib (.packet p) toCosim).ret = 1 ∧
      SamePacket p (simicsDpiRequest lib (.packet p) toCosim).toCosim := by
  have hdeque : simicsDequeRequestServerTlp (.packet p) .zero = (((simicsPktSize : ℕ) : ℤ), p) := by
    change ((ReadResult.packet p).ret, (ReadResult.packet p).store .zero) = _
    rw [ReadResult.packet_ret, ReadResult.store_packet]
  have hpos : (0 : ℤ) < (simicsPktSize : ℕ) := by decide
  rw [simicsDpiRequest, hdeque]
  dsimp only
  rw [if_pos hpos]
  exact ⟨rfl, rfl, rfl, rfl, rfl, rfl, rfl, fun i hi h => memcpyData_lt hi h⟩

end Request

section Response

variable (q : SimicsTransaction)

-- the only field that the response can lose
theorem dpiResponseData_same_iff : SamePacket q (dpiResponseData q) ↔ q.r0w1 = 0 := by
  constructor
  · intro h
    exact h.r0w1.symm
  · intro h
    exact ⟨rfl, rfl, rfl, rfl, h.symm, rfl, fun i hi hlt => memcpyData_lt hi hlt⟩

theorem dpiResponseData_zero_after (i : ℕ) (hi : i < maxPayloadSize) (h : q.dataSize.toNat ≤ i) :
    (dpiResponseData q).data[i] = 0 := by
  have hkeep : (dpiResponseData q).data[i] = SimicsTransaction.zero.data[i] := memcpyData_ge hi h
  rw [hkeep, SimicsTransaction.zero, Vector.getElem_replicate]

end Response

/-! ## The boundary as a whole -/

/-- What the boundary should do with a request `p` at the head of `request_server`, and with a
response struct `q`. -/
structure DpiLossless (lib : DpiLib) (toCosim p q : SimicsTransaction) (rest : List UInt8)
    (retval : ℤ) : Prop where
  request_ret : (simicsDpiRequest lib (readPipe (p.image ++ rest)).1 toCosim).ret = 1
  request : SamePacket p (simicsDpiRequest lib (readPipe (p.image ++ rest)).1 toCosim).toCosim
  response : SamePacket q (simicsDpiResponse lib q retval).enqueued
  response_zero : ∀ (i : ℕ) (_ : i < maxPayloadSize), q.dataSize.toNat ≤ i →
    (simicsDpiResponse lib q retval).enqueued.data[i] = 0
  echo : SamePacket p (simicsDpiResponse
    (simicsDpiRequest lib (readPipe (p.image ++ rest)).1 toCosim).lib
    (simicsDpiRequest lib (readPipe (p.image ++ rest)).1 toCosim).toCosim retval).enqueued

/-- The boundary keeps every field of a request; it keeps a response, and so an echoed request,
exactly when its `r0w1` is 0. -/
theorem dpi_lossless_iff (lib : DpiLib) (toCosim p q : SimicsTransaction) (rest : List UInt8)
    (retval : ℤ) (_hp : p.dataSize.toNat ≤ maxPayloadSize)
    (_hq : q.dataSize.toNat ≤ maxPayloadSize) :
    DpiLossless lib toCosim p q rest retval ↔ p.r0w1 = 0 ∧ q.r0w1 = 0 := by
  have hread : (readPipe (p.image ++ rest)).1 = .packet p := by rw [readPipe_packet]
  obtain ⟨hret, hsame⟩ := simicsDpiRequest_packet lib p toCosim
  constructor
  · intro h
    refine ⟨?_, (dpiResponseData_same_iff q).mp h.response⟩
    -- the enqueued echo has r0w1 = 0 whatever the request was
    exact h.echo.r0w1.symm
  · rintro ⟨hp0, hq0⟩
    refine ⟨by rw [hread]; exact hret, by rw [hread]; exact hsame,
      (dpiResponseData_same_iff q).mpr hq0, dpiResponseData_zero_after q, ?_⟩
    rw [hread]
    apply hsame.trans
    apply (dpiResponseData_same_iff _).mpr
    rw [hsame.r0w1, hp0]

def readRequest : SimicsTransaction :=
  { SimicsTransaction.zero with packetNumber := 1, packetType := 1, simType := 1, dataSize := 4 }

theorem dpi_lossless_read :
    DpiLossless ⟨.zero, .zero⟩ .zero readRequest readRequest [] 288 :=
  (dpi_lossless_iff ⟨.zero, .zero⟩ .zero readRequest readRequest [] 288 (by decide)
    (by decide)).mpr ⟨rfl, rfl⟩

theorem write_request_loses_direction :
    ¬ ∀ (lib : DpiLib) (toCosim p q : SimicsTransaction) (rest : List UInt8) (retval : ℤ),
      p.dataSize.toNat ≤ maxPayloadSize → q.dataSize.toNat ≤ maxPayloadSize →
        DpiLossless lib toCosim p q rest retval := by
  intro h
  have hw := h ⟨.zero, .zero⟩ .zero readRequest { readRequest with r0w1 := 1 } [] 288
    (by decide) (by decide)
  exact absurd hw.response.r0w1 (by decide)

end SimConnect
