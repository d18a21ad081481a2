import SimConnect.Foundation.LittleEndian
import Mathlib.Data.List.GetD

/-!
# The packet of cxl_tlp_fifo.h

Every pipe and socket of the relay carries `simics_transaction_t` as its raw memory image, so the
packet type comes with that image and with the copy of received bytes over an old packet.
-/

open SimConnect.Foundation

namespace SimConnect

-- MAX_PAYLOAD_SIZE
abbrev maxPayloadSize : ℕ := 256

-- SIMICS_PKT_SIZE, that is sizeof(simics_transaction_t) by the layout of `cMembers_size`
abbrev simicsPktSize : ℕ := 288

/-- `simics_transaction_t`.  `pad` stands for the four bytes that the C layout leaves between
`sim_type` and `physical_address`: the struct is copied as raw bytes, so they travel with it. -/
@[ext] structure SimicsTransaction where
  packetNumber : UInt32
  packetType : UInt32
  simType : UInt32
  pad : UInt32
  physicalAddress : UInt64
  r0w1 : UInt32
  dataSize : UInt32
  data : Vector UInt8 maxPayloadSize
  deriving DecidableEq

namespace SimicsTransaction

-- what memset(&simics_data, 0, sizeof(simics_transaction_t)) leaves
def zero : SimicsTransaction := ⟨0, 0, 0, 0, 0, 0, 0, Vector.replicate _ 0⟩

instance : Inhabited SimicsTransaction := ⟨zero⟩

-- the bytes that write and send put out for a packet
def image (p : SimicsTransaction) : List UInt8 :=
  leBytes 4 p.packetNumber.toNat ++ (leBytes 4 p.packetType.toNat ++
    (leBytes 4 p.simType.toNat ++ (leBytes 4 p.pad.toNat ++
      (leBytes 8 p.physicalAddress.toNat ++ (leBytes 4 p.r0w1.toNat ++
        (leBytes 4 p.dataSize.toNat ++ p.data.toList))))))

def wordAt (bs : List UInt8) (off n : ℕ) : ℕ := leNat ((bs.drop off).take n)

-- the packet whose memory holds `bs`
def ofImage (bs : List UInt8) : SimicsTransaction where
  packetNumber := UInt32.ofNat (wordAt bs 0 4)
  packetType := UInt32.ofNat (wordAt bs 4 4)
  simType := UInt32.ofNat (wordAt bs 8 4)
  pad := UInt32.ofNat (wordAt bs 12 4)
  physicalAddress := UInt64.ofNat (wordAt bs 16 8)
  r0w1 := UInt32.ofNat (wordAt bs 24 4)
  dataSize := UInt32.ofNat (wordAt bs 28 4)
  data := Vector.ofFn fun i => bs.getD (32 + i) 0

/-- `read` and `recv` store the bytes they got at the front of the buffer; the rest of the old
packet stays. -/
def overlay (p : SimicsTransaction) (bs : List UInt8) : SimicsTransaction :=
  ofImage (bs ++ p.image.drop bs.length)

@[simp] theorem image_length (p : SimicsTransaction) : p.image.length = simicsPktSize := by
  simp only [image, List.length_append, leBytes_length, Vector.length_toList, maxPayloadSize,
    simicsPktSize]

theorem image_ne_nil (p : SimicsTransaction) : p.image ≠ [] := by
  intro h
  have hl := p.image_length
  rw [h] at hl
  exact absurd hl (by decide)

/-! ## The image determines the packet, and every image of the right size is one -/

theorem wordAt_append_left {l r : List UInt8} {n : ℕ} (hl : l.length = n) :
    wordAt (l ++ r) 0 n = leNat l := by
  rw [wordAt, List.drop_zero, List.take_left' hl]

theorem wordAt_append_right {l r : List UInt8} {off n : ℕ} (hl : l.length ≤ off) :
    wordAt (l ++ r) off n = wordAt r (off - l.length) n := by
  rw [wordAt, List.drop_append, List.drop_of_length_le hl, List.nil_append, wordAt]

theorem ofImage_image (p : SimicsTransaction) : ofImage p.image = p := by
  unfold ofImage image
  ext1
  case data =>
    apply Vector.ext
    intro i hi
    rw [Vector.getElem_ofFn]
    simp (disch := simp; omega) only [List.getD_append_right, leBytes_length]
    rw [List.getD_eq_getElem _ _ (by rw [Vector.length_toList]; omega), Vector.getElem_toList]
    congr 1
    omega
  -- each word field: skip the members in front of it, then read its own bytes
  all_goals
    simp (disch := simp) only [wordAt_append_right, wordAt_append_left, leBytes_length,
      Nat.reduceSub, leNat_leBytes_uint32, leNat_leBytes_uint64, UInt32.ofNat_toNat,
      UInt64.ofNat_toNat]

theorem image_injective : Function.Injective image :=
  Function.LeftInverse.injective ofImage_image

theorem leBytes_wordAt {bs : List UInt8} {off n : ℕ} (h : off + n ≤ bs.length) :
    leBytes n (wordAt bs off n) ++ bs.drop (off + n) = bs.drop off := by
  have hl : ((bs.drop off).take n).length = n := by
    rw [List.length_take, List.length_drop]; omega
  have hw : leBytes n (wordAt bs off n) = (bs.drop off).take n := by
    have hb := leBytes_leNat ((bs.drop off).take n)
    rwa [hl] at hb
  rw [hw, ← List.drop_drop, List.take_append_drop]

theorem wordAt_lt (bs : List UInt8) (off n : ℕ) : wordAt bs off n < 256 ^ n :=
  lt_of_lt_of_le (leNat_lt _)
    (Nat.pow_le_pow_right (by decide) (by rw [List.length_take]; exact Nat.min_le_left _ _))

theorem toNat_ofNat_wordAt4 (bs : List UInt8) (off : ℕ) :
    (UInt32.ofNat (wordAt bs off 4)).toNat = wordAt bs off 4 :=
  UInt32.toNat_ofNat_of_lt (wordAt_lt bs off 4)

theorem image_ofImage {bs : List UInt8} (h : bs.length = simicsPktSize) :
    (ofImage bs).image = bs := by
  change bs.length = 288 at h
  have hdata : (ofImage bs).data.toList = bs.drop 32 := by
    apply List.ext_getElem
    · rw [Vector.length_toList, List.length_drop, h]
    · intro i hi _
      rw [Vector.length_toList] at hi
      rw [Vector.getElem_toList, List.getElem_drop]
      simp only [ofImage, Vector.getElem_ofFn]
      change i < 256 at hi
      exact List.getD_eq_getElem _ _ (by omega)
  have hpa : (UInt64.ofNat (wordAt bs 16 8)).toNat = wordAt bs 16 8 :=
    UInt64.toNat_ofNat_of_lt (wordAt_lt bs 16 8)
  rw [image, hdata]
  simp only [ofImage, toNat_ofNat_wordAt4, hpa]
  rw [leBytes_wordAt (by omega : 28 + 4 ≤ bs.length),
    leBytes_wordAt (by omega : 24 + 4 ≤ bs.length), leBytes_wordAt (by omega : 16 + 8 ≤ bs.length),
    leBytes_wordAt (by omega : 12 + 4 ≤ bs.length), leBytes_wordAt (by omega : 8 + 4 ≤ bs.length),
    leBytes_wordAt (by omega : 4 + 4 ≤ bs.length), leBytes_wordAt (by omega : 0 + 4 ≤ bs.length),
    List.drop_zero]

/-! ## Copying received bytes over a packet -/

theorem overlay_of_length (p : SimicsTransaction) {bs : List UInt8}
    (h : bs.length = simicsPktSize) : p.overlay bs = ofImage bs := by
  rw [overlay, h, ← p.image_length, List.drop_length, List.append_nil]

@[simp] theorem overlay_image (p q : SimicsTransaction) : p.overlay q.image = q := by
  rw [overlay_of_length p q.image_length, ofImage_image]

-- the first four bytes are the packet number
theorem packetNumber_overlay_take (old p : SimicsTransaction) {k : ℕ} (hk : 4 ≤ k) :
    (old.overlay (p.image.take k)).packetNumber = p.packetNumber := by
  have hword : ∀ l : List UInt8, wordAt (p.image.take k ++ l) 0 4 = wordAt p.image 0 4 := by
    intro l
    have hlen : 4 ≤ (p.image.take k).length := by
      rw [List.length_take, p.image_length]
      change 4 ≤ min k 288
      omega
    rw [wordAt, wordAt, List.drop_zero, List.drop_zero, List.take_append_of_le_length hlen,
      List.take_take, Nat.min_eq_left hk]
  have hp := congrArg packetNumber p.ofImage_image
  rw [← hp]
  simp only [overlay, ofImage, hword]

end SimicsTransaction

def packetBytes (ps : List SimicsTransaction) : List UInt8 :=
  ps.flatMap SimicsTransaction.image

@[simp] theorem packetBytes_nil : packetBytes [] = [] := rfl

@[simp] theorem packetBytes_cons (p : SimicsTransaction) (ps : List SimicsTransaction) :
    packetBytes (p :: ps) = p.image ++ packetBytes ps := by
  simp only [packetBytes, List.flatMap_cons]

theorem packetBytes_append (ps qs : List SimicsTransaction) :
    packetBytes (ps ++ qs) = packetBytes ps ++ packetBytes qs := List.flatMap_append

end SimConnect
