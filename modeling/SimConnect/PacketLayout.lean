import SimConnect.Packet
import SimConnect.Foundation.StructLayout

/-!
# The packet struct of C and of SystemVerilog

cxl_tlp_fifo.h and dpi_sv.sv both declare `simics_transaction_t`, and the simulator hands the DPI
functions a pointer to the SystemVerilog struct.  The C functions use that memory with the offsets
of the C struct.
-/

open SimConnect.Foundation

namespace SimConnect

inductive PacketField
  | packetNumber | packetType | simType | baseAddress | physicalAddress | r0w1 | dataSize | data
  deriving DecidableEq

-- cxl_tlp_fifo.h, simics_transaction_t
def cMembers : List (PacketField × Member) :=
  [(.packetNumber, .scalar 4), (.packetType, .scalar 4), (.simType, .scalar 4),
    (.physicalAddress, .scalar 8), (.r0w1, .scalar 4), (.dataSize, .scalar 4),
    (.data, .byteArray maxPayloadSize)]

-- dpi_sv.sv, simics_transaction_t, and the C struct of vc_hdrs.h
def svMembers : List (PacketField × Member) :=
  [(.packetNumber, .scalar 4), (.packetType, .scalar 4), (.simType, .scalar 4),
    (.baseAddress, .scalar 8), (.physicalAddress, .scalar 8), (.r0w1, .scalar 4),
    (.dataSize, .scalar 4), (.data, .byteArray maxPayloadSize)]

def cOffset (f : PacketField) : ℕ := offsetOf cMembers f

def svOffset (f : PacketField) : ℕ := offsetOf svMembers f

theorem cMembers_size : structSize cMembers = simicsPktSize := by decide

theorem svMembers_size : structSize svMembers = simicsPktSize + 8 := by decide

structure SvTransaction where
  packetNumber : UInt32
  packetType : UInt32
  simType : UInt32
  baseAddress : UInt64
  physicalAddress : UInt64
  r0w1 : UInt32
  dataSize : UInt32
  data : Vector UInt8 maxPayloadSize

-- dpi_sv.c, lines 120-125: the header stores of simics_dpi_request into to_cosim
def cHeader (p : SimicsTransaction) : List Field :=
  [⟨cOffset .packetNumber, 4, p.packetNumber.toNat⟩, ⟨cOffset .packetType, 4, p.packetType.toNat⟩,
    ⟨cOffset .simType, 4, p.simType.toNat⟩, ⟨cOffset .physicalAddress, 8, p.physicalAddress.toNat⟩,
    ⟨cOffset .r0w1, 4, p.r0w1.toNat⟩, ⟨cOffset .dataSize, 4, p.dataSize.toNat⟩]

/-- The stores of simics_dpi_request into `to_cosim`: the header fields, then
`memcpy(to_cosim->data, simics_data.data, simics_data.data_size)`. -/
def storeThroughC (m : Mem) (p : SimicsTransaction) : Mem :=
  storeBytes (storeFields m (cHeader p)) (cOffset .data) (p.data.toList.take p.dataSize.toNat)

/-- What simics_dpi_response reads from `from_cosim`; no field lies over the padding. -/
def readThroughC (m : Mem) : SimicsTransaction where
  packetNumber := UInt32.ofNat (loadLE m (cOffset .packetNumber) 4)
  packetType := UInt32.ofNat (loadLE m (cOffset .packetType) 4)
  simType := UInt32.ofNat (loadLE m (cOffset .simType) 4)
  pad := UInt32.ofNat (loadLE m (cOffset .simType + 4) 4)
  physicalAddress := UInt64.ofNat (loadLE m (cOffset .physicalAddress) 8)
  r0w1 := UInt32.ofNat (loadLE m (cOffset .r0w1) 4)
  dataSize := UInt32.ofNat (loadLE m (cOffset .dataSize) 4)
  data := Vector.ofFn fun i => m (cOffset .data + i)

def svHeader (q : SvTransaction) : List Field :=
  [⟨svOffset .packetNumber, 4, q.packetNumber.toNat⟩,
    ⟨svOffset .packetType, 4, q.packetType.toNat⟩, ⟨svOffset .simType, 4, q.simType.toNat⟩,
    ⟨svOffset .baseAddress, 8, q.baseAddress.toNat⟩,
    ⟨svOffset .physicalAddress, 8, q.physicalAddress.toNat⟩, ⟨svOffset .r0w1, 4, q.r0w1.toNat⟩,
    ⟨svOffset .dataSize, 4, q.dataSize.toNat⟩]

def storeThroughSv (m : Mem) (q : SvTransaction) : Mem :=
  storeBytes (storeFields m (svHeader q)) (svOffset .data) q.data.toList

def readThroughSv (m : Mem) : SvTransaction where
  packetNumber := UInt32.ofNat (loadLE m (svOffset .packetNumber) 4)
  packetType := UInt32.ofNat (loadLE m (svOffset .packetType) 4)
  simType := UInt32.ofNat (loadLE m (svOffset .simType) 4)
  baseAddress := UInt64.ofNat (loadLE m (svOffset .baseAddress) 8)
  physicalAddress := UInt64.ofNat (loadLE m (svOffset .physicalAddress) 8)
  r0w1 := UInt32.ofNat (loadLE m (svOffset .r0w1) 4)
  dataSize := UInt32.ofNat (loadLE m (svOffset .dataSize) 4)
  data := Vector.ofFn fun i => m (svOffset .data + i)

/-! ## The two offset tables -/

theorem cOffset_eq (f : PacketField) : cOffset f =
    match f with
    | .packetNumber => 0 | .packetType => 4 | .simType => 8 | .physicalAddress => 16
    | .r0w1 => 24 | .dataSize => 28 | .data => 32 | .baseAddress => 288 := by
  cases f <;> decide

theorem svOffset_eq (f : PacketField) : svOffset f =
    match f with
    | .packetNumber => 0 | .packetType => 4 | .simType => 8 | .baseAddress => 16
    | .physicalAddress => 24 | .r0w1 => 32 | .dataSize => 36 | .data => 40 := by
  cases f <;> decide

theorem wordAt_eq_loadLE {bs : List UInt8} {off n : ℕ} (h : off + n ≤ bs.length) :
    SimicsTransaction.wordAt bs off n = loadLE (fun a => bs.getD a 0) off n := by
  unfold SimicsTransaction.wordAt loadLE
  congr 1
  apply List.ext_getElem
  · rw [List.length_take, List.length_drop, loadBytes_length]; omega
  · intro i hi hj
    rw [loadBytes_length] at hj
    rw [List.getElem_take, List.getElem_drop]
    simp only [loadBytes, List.getElem_map, List.getElem_range]
    exact (List.getD_eq_getElem _ _ (by omega)).symm

/-- The packet image of Packet.lean is the C layout: reading a 288-byte image through the C
struct gives the packet that the image stands for. -/
theorem readThroughC_image {bs : List UInt8} (h : bs.length = simicsPktSize) :
    readThroughC (fun a => bs.getD a 0) = SimicsTransaction.ofImage bs := by
  change bs.length = 288 at h
  unfold readThroughC SimicsTransaction.ofImage
  simp only [cOffset_eq]
  rw [wordAt_eq_loadLE (by omega), wordAt_eq_loadLE (by omega), wordAt_eq_loadLE (by omega),
    wordAt_eq_loadLE (by omega), wordAt_eq_loadLE (by omega), wordAt_eq_loadLE (by omega),
    wordAt_eq_loadLE (by omega)]

/-! ## Reading one view through the other -/

/-- The two views agree on the header fields and on the payload below data_size. -/
def SameView (p : SimicsTransaction) (q : SvTransaction) : Prop :=
  q.packetNumber = p.packetNumber ∧ q.packetType = p.packetType ∧ q.simType = p.simType ∧
    q.physicalAddress = p.physicalAddress ∧ q.r0w1 = p.r0w1 ∧ q.dataSize = p.dataSize ∧
    ∀ i (h : i < maxPayloadSize), i < p.dataSize.toNat → q.data[i] = p.data[i]

theorem cHeader_apart (p : SimicsTransaction) : (cHeader p).Pairwise Field.Apart := by
  simp [cHeader, cOffset_eq, Field.Apart]

theorem svHeader_apart (q : SvTransaction) : (svHeader q).Pairwise Field.Apart := by
  simp [svHeader, svOffset_eq, Field.Apart]

theorem storeThroughC_header (m : Mem) (p : SimicsTransaction) {f : Field} (hf : f ∈ cHeader p) :
    loadBytes (storeThroughC m p) f.off f.width = leBytes f.width f.value := by
  have hend : f.off + f.width ≤ cOffset .data := by
    simp only [cHeader, cOffset_eq, List.mem_cons, List.not_mem_nil, or_false] at hf ⊢
    rcases hf with rfl | rfl | rfl | rfl | rfl | rfl <;> dsimp only <;> omega
  rw [storeThroughC, loadBytes_storeBytes_of_disjoint _ _ _ _ _ (Or.inl hend),
    loadBytes_storeFields m (cHeader_apart p) hf]

theorem storeThroughSv_header (m : Mem) (q : SvTransaction) {f : Field} (hf : f ∈ svHeader q) :
    loadBytes (storeThroughSv m q) f.off f.width = leBytes f.width f.value := by
  have hend : f.off + f.width ≤ svOffset .data := by
    simp only [svHeader, svOffset_eq, List.mem_cons, List.not_mem_nil, or_false] at hf ⊢
    rcases hf with rfl | rfl | rfl | rfl | rfl | rfl | rfl <;> dsimp only <;> omega
  rw [storeThroughSv, loadBytes_storeBytes_of_disjoint _ _ _ _ _ (Or.inl hend),
    loadBytes_storeFields m (svHeader_apart q) hf]

/-- The bytes behind the header of the C struct after `storeThroughC`: the payload, and from
data_size on what the memory held before. -/
def payloadWindow (p : SimicsTransaction) (m : Mem) : Mem := fun j =>
  if j < p.dataSize.toNat then p.data.toList.getD j 0 else m (32 + j)

theorem storeThroughC_window (m : Mem) (p : SimicsTransaction)
    (hs : p.dataSize.toNat ≤ maxPayloadSize) (j : ℕ) :
    storeThroughC m p (32 + j) = payloadWindow p m j := by
  have hlen : (p.data.toList.take p.dataSize.toNat).length = p.dataSize.toNat := by
    rw [List.length_take, Vector.length_toList, Nat.min_eq_left hs]
  unfold storeThroughC payloadWindow
  simp only [cOffset_eq]
  by_cases hj : j < p.dataSize.toNat
  · rw [if_pos hj, storeBytes_inside _ _ _ _ (by rwa [hlen]), List.getElem_take,
      List.getD_eq_getElem]
  · rw [if_neg hj, storeBytes_outside _ _ _ _ (by omega)]
    apply storeFields_outside
    intro f hf
    simp only [cHeader, cOffset_eq, List.mem_cons, List.not_mem_nil, or_false] at hf
    rcases hf with rfl | rfl | rfl | rfl | rfl | rfl <;> dsimp only <;> omega

/-- The condition under which the SystemVerilog struct, eight bytes longer in front of
physical_address, still shows what C stored: the word formed by r0w1 and data_size is the
physical address, the same word starts the payload window, and the window has period eight. -/
def CStoreLinesUp (p : SimicsTransaction) (m : Mem) : Prop :=
  p.physicalAddress.toNat = p.r0w1.toNat + 2 ^ 32 * p.dataSize.toNat ∧
    loadLE (payloadWindow p m) 0 8 = p.physicalAddress.toNat ∧
    ∀ i, i < p.dataSize.toNat → payloadWindow p m (8 + i) = payloadWindow p m i

/-- The same for a SystemVerilog value that C reads: base_address is where C finds
physical_address, and C finds the payload eight bytes early. -/
def SvStoreLinesUp (q : SvTransaction) : Prop :=
  q.baseAddress = q.physicalAddress ∧
    q.physicalAddress.toNat = q.r0w1.toNat + 2 ^ 32 * q.dataSize.toNat ∧
    ∀ i (h : i < maxPayloadSize), i < q.dataSize.toNat →
      q.data[i] = (leBytes 4 q.r0w1.toNat ++ (leBytes 4 q.dataSize.toNat ++ q.data.toList)).getD i 0

theorem uint32_ofNat_eq_iff {n : ℕ} (hn : n < 2 ^ 32) (x : UInt32) :
    UInt32.ofNat n = x ↔ n = x.toNat := by
  rw [← UInt32.toNat_inj, UInt32.toNat_ofNat_of_lt' hn]

theorem uint64_ofNat_eq_iff {n : ℕ} (hn : n < 2 ^ 64) (x : UInt64) :
    UInt64.ofNat n = x ↔ n = x.toNat := by
  rw [← UInt64.toNat_inj, UInt64.toNat_ofNat_of_lt' hn]

theorem loadLE_lt (m : Mem) (off n : ℕ) : loadLE m off n < 256 ^ n := by
  have h := leNat_lt (loadBytes m off n)
  rwa [loadBytes_length] at h

theorem storeThroughC_word (m : Mem) (p : SimicsTransaction) {off : ℕ} (x : UInt32)
    (hf : ⟨off, 4, x.toNat⟩ ∈ cHeader p) : loadLE (storeThroughC m p) off 4 = x.toNat :=
  (congrArg leNat (storeThroughC_header m p hf)).trans (leNat_leBytes_uint32 x)

theorem storeThroughSv_word (m : Mem) (q : SvTransaction) {off : ℕ} (x : UInt32)
    (hf : ⟨off, 4, x.toNat⟩ ∈ svHeader q) : loadLE (storeThroughSv m q) off 4 = x.toNat :=
  (congrArg leNat (storeThroughSv_header m q hf)).trans (leNat_leBytes_uint32 x)

/-- What C stored, seen through the SystemVerilog offsets. -/
theorem readThroughSv_storeThroughC (m : Mem) (p : SimicsTransaction)
    (hs : p.dataSize.toNat ≤ maxPayloadSize) :
    readThroughSv (storeThroughC m p) =
      { packetNumber := p.packetNumber
        packetType := p.packetType
        simType := p.simType
        baseAddress := p.physicalAddress
        physicalAddress := UInt64.ofNat (p.r0w1.toNat + 2 ^ 32 * p.dataSize.toNat)
        r0w1 := UInt32.ofNat (loadLE (payloadWindow p m) 0 4)
        dataSize := UInt32.ofNat (loadLE (payloadWindow p m) 4 4)
        data := Vector.ofFn fun i => payloadWindow p m (8 + i) } := by
  have hword {off : ℕ} (x : UInt32) (hf : ⟨off, 4, x.toNat⟩ ∈ cHeader p) :=
    storeThroughC_word m p x hf
  have hpn : loadLE (storeThroughC m p) 0 4 = p.packetNumber.toNat :=
    hword _ (by simp [cHeader, cOffset_eq])
  have hpt : loadLE (storeThroughC m p) 4 4 = p.packetType.toNat :=
    hword _ (by simp [cHeader, cOffset_eq])
  have hst : loadLE (storeThroughC m p) 8 4 = p.simType.toNat :=
    hword _ (by simp [cHeader, cOffset_eq])
  have hba : loadLE (storeThroughC m p) 16 8 = p.physicalAddress.toNat := by
    have h : (⟨16, 8, p.physicalAddress.toNat⟩ : Field) ∈ cHeader p := by
      simp [cHeader, cOffset_eq]
    exact (congrArg leNat (storeThroughC_header m p h)).trans (leNat_leBytes_uint64 _)
  -- the address field of the SystemVerilog struct lies over r0w1 and data_size
  have hpa : loadLE (storeThroughC m p) 24 8 = p.r0w1.toNat + 2 ^ 32 * p.dataSize.toNat := by
    rw [show 8 = 4 + 4 from rfl, loadLE_add, hword p.r0w1 (by simp [cHeader, cOffset_eq]),
      hword p.dataSize (by simp [cHeader, cOffset_eq])]
    norm_num
  have hwin (off n : ℕ) :
      loadLE (storeThroughC m p) (32 + off) n = loadLE (payloadWindow p m) off n := by
    apply congrArg leNat
    apply loadBytes_congr
    intro i _
    rw [Nat.add_assoc, storeThroughC_window m p hs]
  have hdata (i : ℕ) : storeThroughC m p (40 + i) = payloadWindow p m (8 + i) := by
    rw [show 40 + i = 32 + (8 + i) by omega, storeThroughC_window m p hs]
  simp only [readThroughSv, svOffset_eq, hba, hpa, hdata,
    hpn, hpt, hst, hwin 0, hwin 4, UInt32.ofNat_toNat, UInt64.ofNat_toNat]

theorem sameView_storeThroughC_iff (m : Mem) (p : SimicsTransaction)
    (hs : p.dataSize.toNat ≤ maxPayloadSize) :
    SameView p (readThroughSv (storeThroughC m p)) ↔ CStoreLinesUp p m := by
  have hr := p.r0w1.toNat_lt
  have hd := p.dataSize.toNat_lt
  have hlo := loadLE_lt (payloadWindow p m) 0 4
  have hhi := loadLE_lt (payloadWindow p m) 4 4
  have hbyte (i : ℕ) (hi : i < maxPayloadSize) (hlt : i < p.dataSize.toNat) :
      payloadWindow p m i = p.data[i] := by
    rw [payloadWindow, if_pos hlt, List.getD_eq_getElem _ _ (by rwa [Vector.length_toList]),
      Vector.getElem_toList]
  have hword : loadLE (payloadWindow p m) 0 8 =
      loadLE (payloadWindow p m) 0 4 + 2 ^ 32 * loadLE (payloadWindow p m) 4 4 := by
    rw [show 8 = 4 + 4 from rfl, loadLE_add]
    norm_num
  rw [readThroughSv_storeThroughC m p hs]
  simp only [SameView, CStoreLinesUp, hword, true_and, Vector.getElem_ofFn]
  rw [uint64_ofNat_eq_iff (by omega), uint32_ofNat_eq_iff hlo, uint32_ofNat_eq_iff hhi]
  constructor
  · rintro ⟨hpa, hw0, hw4, hdata⟩
    refine ⟨hpa.symm, by omega, fun i hlt => ?_⟩
    have hi : i < maxPayloadSize := by omega
    rw [hdata i hi hlt, hbyte i hi hlt]
  · rintro ⟨hpa, hw, hdata⟩
    refine ⟨hpa.symm, by omega, by omega, fun i hi hlt => ?_⟩
    rw [hdata i hlt, hbyte i hi hlt]

-- what a SystemVerilog value in memory looks like through the C offsets
theorem readThroughC_storeThroughSv (m : Mem) (q : SvTransaction) :
    let p := readThroughC (storeThroughSv m q)
    p.packetNumber = q.packetNumber ∧ p.packetType = q.packetType ∧ p.simType = q.simType ∧
      p.physicalAddress = q.baseAddress ∧
      p.r0w1.toNat + 2 ^ 32 * p.dataSize.toNat = q.physicalAddress.toNat ∧
      ∀ i (h : i < maxPayloadSize), p.data[i] =
        (leBytes 4 q.r0w1.toNat ++ (leBytes 4 q.dataSize.toNat ++ q.data.toList)).getD i 0 := by
  let M := storeThroughSv m q
  have hword {off : ℕ} (x : UInt32) (hf : ⟨off, 4, x.toNat⟩ ∈ svHeader q) :=
    storeThroughSv_word m q x hf
  have hpn : loadLE M 0 4 = q.packetNumber.toNat := hword _ (by simp [svHeader, svOffset_eq])
  have hpt : loadLE M 4 4 = q.packetType.toNat := hword _ (by simp [svHeader, svOffset_eq])
  have hst : loadLE M 8 4 = q.simType.toNat := hword _ (by simp [svHeader, svOffset_eq])
  have hba : loadLE M 16 8 = q.baseAddress.toNat := by
    have h : (⟨16, 8, q.baseAddress.toNat⟩ : Field) ∈ svHeader q := by simp [svHeader, svOffset_eq]
    exact (congrArg leNat (storeThroughSv_header m q h)).trans (leNat_leBytes_uint64 _)
  have hpa : loadLE M 24 4 + 2 ^ 32 * loadLE M 28 4 = q.physicalAddress.toNat := by
    have h : (⟨24, 8, q.physicalAddress.toNat⟩ : Field) ∈ svHeader q := by
      simp [svHeader, svOffset_eq]
    have h8 := (congrArg leNat (storeThroughSv_header m q h)).trans (leNat_leBytes_uint64 _)
    change loadLE M 24 (4 + 4) = _ at h8
    rw [loadLE_add] at h8
    norm_num at h8 ⊢
    exact h8
  -- the C payload starts over r0w1 and data_size of the SystemVerilog struct
  have hpayload : loadBytes M 32 (4 + (4 + maxPayloadSize)) =
      leBytes 4 q.r0w1.toNat ++ (leBytes 4 q.dataSize.toNat ++ q.data.toList) := by
    have h32 := storeThroughSv_header m q (f := ⟨32, 4, q.r0w1.toNat⟩)
      (by simp [svHeader, svOffset_eq])
    have h36 := storeThroughSv_header m q (f := ⟨36, 4, q.dataSize.toNat⟩)
      (by simp [svHeader, svOffset_eq])
    have hdata : loadBytes M 40 maxPayloadSize = q.data.toList := by
      have h := loadBytes_storeBytes (storeFields m (svHeader q)) 40 q.data.toList
      rwa [Vector.length_toList] at h
    rw [loadBytes_add, loadBytes_add]
    exact congrArg₂ _ h32 (congrArg₂ _ h36 hdata)
  intro p
  refine ⟨?_, ?_, ?_, ?_, ?_, fun i hi => ?_⟩
  · change UInt32.ofNat (loadLE M (cOffset .packetNumber) 4) = _
    rw [show cOffset .packetNumber = 0 from by decide, hpn, UInt32.ofNat_toNat]
  · change UInt32.ofNat (loadLE M (cOffset .packetType) 4) = _
    rw [show cOffset .packetType = 4 from by decide, hpt, UInt32.ofNat_toNat]
  · change UInt32.ofNat (loadLE M (cOffset .simType) 4) = _
    rw [show cOffset .simType = 8 from by decide, hst, UInt32.ofNat_toNat]
  · change UInt64.ofNat (loadLE M (cOffset .physicalAddress) 8) = _
    rw [show cOffset .physicalAddress = 16 from by decide, hba, UInt64.ofNat_toNat]
  · change (UInt32.ofNat (loadLE M (cOffset .r0w1) 4)).toNat +
      2 ^ 32 * (UInt32.ofNat (loadLE M (cOffset .dataSize) 4)).toNat = _
    rw [show cOffset .r0w1 = 24 from by decide, show cOffset .dataSize = 28 from by decide,
      UInt32.toNat_ofNat_of_lt' (loadLE_lt M 24 4), UInt32.toNat_ofNat_of_lt' (loadLE_lt M 28 4),
      hpa]
  · change (Vector.ofFn fun i : Fin maxPayloadSize => M (cOffset .data + i))[i] = _
    rw [Vector.getElem_ofFn, show cOffset .data = 32 from by decide, ← hpayload,
      List.getD_eq_getElem _ _ (by rw [loadBytes_length]; omega)]
    simp only [loadBytes, List.getElem_map, List.getElem_range]

theorem sameView_storeThroughSv_iff (m : Mem) (q : SvTransaction) :
    SameView (readThroughC (storeThroughSv m q)) q ↔ SvStoreLinesUp q := by
  obtain ⟨hpn, hpt, hst, hpa, hword, hdata⟩ := readThroughC_storeThroughSv m q
  let p := readThroughC (storeThroughSv m q)
  have hr := p.r0w1.toNat_lt
  have hd := p.dataSize.toNat_lt
  have hr' := q.r0w1.toNat_lt
  have hd' := q.dataSize.toNat_lt
  change p.r0w1.toNat + 2 ^ 32 * p.dataSize.toNat = _ at hword
  change _ ∧ _ ∧ _ ∧ _ ∧ q.r0w1 = p.r0w1 ∧ q.dataSize = p.dataSize ∧ _ ↔ _
  rw [hpn, hpt, hst, hpa]
  constructor
  · rintro ⟨-, -, -, hba, hrw, hds, hbytes⟩
    refine ⟨hba.symm, by rw [hrw, hds, hword], fun i hi hlt => ?_⟩
    rw [hbytes i hi (by rwa [← hds]), hdata i hi]
  · rintro ⟨hba, hlayout, hbytes⟩
    have hds : q.dataSize = p.dataSize := UInt32.toNat_inj.mp (by omega)
    refine ⟨rfl, rfl, rfl, hba.symm, UInt32.toNat_inj.mp (by omega), hds, fun i hi hlt => ?_⟩
    rw [hbytes i hi (by rwa [hds]), hdata i hi]

/-- A packet crosses the DPI pointer unchanged, in either direction, exactly when the eight bytes
of base_address, which only the SystemVerilog struct has, shift equal bytes onto each other. -/
theorem dpi_views_agree_iff (m : Mem) (p : SimicsTransaction) (q : SvTransaction)
    (hp : p.dataSize.toNat ≤ maxPayloadSize) :
    (SameView p (readThroughSv (storeThroughC m p)) ↔ CStoreLinesUp p m) ∧
      (SameView (readThroughC (storeThroughSv m q)) q ↔ SvStoreLinesUp q) :=
  ⟨sameView_storeThroughC_iff m p hp, sameView_storeThroughSv_iff m q⟩

def SvTransaction.zero : SvTransaction := ⟨0, 0, 0, 0, 0, 0, 0, Vector.replicate _ 0⟩

-- r0w1 = 1 and data_size = 16 as one word, which memory and payloads repeat
def wordByte (i : ℕ) : UInt8 := [1, 0, 0, 0, 16, 0, 0, 0].getD (i % 8) 0

def repeatedPacket : SimicsTransaction :=
  { SimicsTransaction.zero with
    packetNumber := 7
    packetType := 2
    simType := 1
    physicalAddress := 0x1000000001
    r0w1 := 1
    dataSize := 16
    data := Vector.ofFn fun i => wordByte i }

def repeatedSv : SvTransaction where
  packetNumber := 7
  packetType := 2
  simType := 1
  baseAddress := 0x1000000001
  physicalAddress := 0x1000000001
  r0w1 := 1
  dataSize := 16
  data := Vector.ofFn fun i => wordByte i

theorem dpi_views_agree_repeated :
    SameView repeatedPacket (readThroughSv (storeThroughC wordByte repeatedPacket)) ∧
      SameView (readThroughC (storeThroughSv wordByte repeatedSv)) repeatedSv := by
  obtain ⟨hc, hsv⟩ := dpi_views_agree_iff wordByte repeatedPacket repeatedSv (by decide)
  constructor
  · have hperiod : ∀ i < 16, payloadWindow repeatedPacket wordByte (8 + i) =
        payloadWindow repeatedPacket wordByte i := by decide +kernel
    exact hc.mpr ⟨by decide +kernel, by decide +kernel, hperiod⟩
  · have hbytes : ∀ i (h : i < maxPayloadSize), i < 16 → repeatedSv.data[i] =
        (leBytes 4 repeatedSv.r0w1.toNat ++
          (leBytes 4 repeatedSv.dataSize.toNat ++ repeatedSv.data.toList)).getD i 0 := by
      decide +kernel
    exact hsv.mpr ⟨rfl, by decide +kernel, hbytes⟩

/-- A packet for address 1 without payload: SystemVerilog reads the address 0. -/
theorem dpi_views_differ :
    ¬ ((∀ (p : SimicsTransaction) (m : Mem), p.dataSize.toNat ≤ maxPayloadSize →
        SameView p (readThroughSv (storeThroughC m p))) ∧
      (∀ (q : SvTransaction) (m : Mem), q.dataSize.toNat ≤ maxPayloadSize →
        SameView (readThroughC (storeThroughSv m q)) q)) := by
  rintro ⟨hc, -⟩
  have hview := hc { SimicsTransaction.zero with physicalAddress := 1 } (fun _ => 0) (by decide)
  rw [readThroughSv_storeThroughC _ _ (by decide)] at hview
  exact absurd hview.2.2.2.1 (by decide)

end SimConnect
