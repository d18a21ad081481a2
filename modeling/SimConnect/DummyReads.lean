import SimConnect.ForwardReceiver

/-!
# Reads of the dummy device

With `use_rtl` off a read takes its value from `dummy_return_value`, shifted by the alignment of
the address and cut to the size.  Nothing is taken from the word that follows, so the bytes that an
access reads past the end of an 8-byte word are 0.
-/

open SimConnect.Foundation

namespace SimConnect

section Bytes

variable {dev : ForwarderDevice} {t : Transaction} {addr : UInt64} {m : ForwardReceiver}

-- the value that issue sets
theorem issue_dummy_value (hdummy : dev.useRtl = false) (hread : t.isRead = true)
    {tr : List (Σ c, SysCall.Ret c)} {x : (ExceptionType × Transaction) × ForwardReceiver}
    (htr : (issue dev t addr m).Trace tr (some x)) :
    x.1.2.value = readValue t.opsize addr dev.dummyReturnValue := by
  rw [issue, hdummy, if_neg Bool.false_ne_true, if_pos hread] at htr
  cases htr
  rfl

-- the byte at address `x` of an access that starts at `a`, in terms of the dummy value alone
def dummyByte (dummyReturnValue : UInt64) (a x : ℕ) : UInt8 :=
  if x / 8 = a / 8 then leByte dummyReturnValue.toNat (x % 8) else 0

theorem readValue_byte {opsize : ℤ} {n : ℕ} (hn : opsize = n) (h1 : 1 ≤ n) (h8 : n ≤ 8)
    (addr d : UInt64) {x : ℕ} (hlo : addr.toNat ≤ x) (hhi : x < addr.toNat + n) :
    leByte (readValue opsize addr d).toNat (x - addr.toNat) = dummyByte d addr.toNat x := by
  have hd : d.toNat < 256 ^ 8 := d.toNat_lt
  rw [readValue_toNat hn h1 h8, leByte_field _ _ (by omega), dummyByte]
  by_cases hword : x / 8 = addr.toNat / 8
  · rw [if_pos hword]
    congr 1
    omega
  · rw [if_neg hword]
    -- the shift has brought in zeros from above the word
    exact leByte_of_lt hd (by omega)

end Bytes

/-! ## Two reads of one byte -/

/-- The byte at `x` is in the word of both addresses or in that of neither, or it is 0 anyway. -/
def SameDummyByte (dummyReturnValue : UInt64) (a b x : ℕ) : Prop :=
  leByte dummyReturnValue.toNat (x % 8) = 0 ∨ (x / 8 = a / 8 ↔ x / 8 = b / 8)

theorem ite_zero_eq_iff (p q : Prop) [Decidable p] [Decidable q] (b : UInt8) :
    ((if p then b else 0) = if q then b else 0) ↔ b = 0 ∨ (p ↔ q) := by
  by_cases hp : p
  · by_cases hq : q
    · simp only [hp, hq, or_true]
    · simp only [hp, hq, if_true, if_false, iff_false, not_true, or_false]
  · by_cases hq : q
    · simp only [hp, hq, if_true, if_false, false_iff, not_true, or_false, eq_comm]
    · simp only [hp, hq, or_true]

theorem dummyByte_eq_iff (d : UInt64) (a b x : ℕ) :
    dummyByte d a x = dummyByte d b x ↔ SameDummyByte d a b x :=
  ite_zero_eq_iff _ _ _

/-! ## A range read in pieces -/

/-- Reads of the given sizes one after another from an address on, with the bytes of the values that
issue sets. -/
inductive DummyReads (dev : ForwarderDevice) : UInt64 → List UInt32 → List UInt8 → Prop
  | nil (addr : UInt64) : DummyReads dev addr [] []
  | cons {addr old : UInt64} {size : UInt32} {sizes : List UInt32} {bs : List UInt8}
      {m : ForwardReceiver} {tr : List (Σ c, SysCall.Ret c)}
      {x : (ExceptionType × Transaction) × ForwardReceiver} :
      (issue dev { isRead := true, size, value := old } addr m).Trace tr (some x) →
      DummyReads dev (addr + size.toUInt64) sizes bs →
      DummyReads dev addr (size :: sizes) (leBytes size.toNat x.1.2.value.toNat ++ bs)

def rangeSize (sizes : List UInt32) : ℕ := (sizes.map UInt32.toNat).sum

-- how far into the range the read begins that covers byte i
def tileStart : List UInt32 → ℕ → ℕ
  | [], _ => 0
  | size :: sizes, i =>
      if i < size.toNat then 0 else size.toNat + tileStart sizes (i - size.toNat)

-- sizes of accesses that a processor makes
def AccessSizes (sizes : List UInt32) : Prop :=
  ∀ size ∈ sizes, 1 ≤ size.toNat ∧ size.toNat ≤ 8

section Tiling

variable {dev : ForwarderDevice} {addr : UInt64} {sizes : List UInt32} {bs : List UInt8}

theorem DummyReads.length (h : DummyReads dev addr sizes bs) : bs.length = rangeSize sizes := by
  induction h with
  | nil addr => rfl
  | @cons addr old size sizes bs m tr x _ _ ih =>
      rw [List.length_append, leBytes_length, ih, rangeSize, rangeSize, List.map_cons,
        List.sum_cons]

theorem DummyReads.byte (hdummy : dev.useRtl = false) (h : DummyReads dev addr sizes bs)
    (hsizes : AccessSizes sizes) (hfit : addr.toNat + rangeSize sizes ≤ 2 ^ 64) {i : ℕ}
    (hi : i < rangeSize sizes) :
    bs[i]? = some (dummyByte dev.dummyReturnValue (addr.toNat + tileStart sizes i)
      (addr.toNat + i)) := by
  induction h generalizing i with
  | nil addr => exact absurd hi (Nat.not_lt_zero i)
  | @cons addr old size sizes bs m tr x htr _ ih =>
      have hrange : rangeSize (size :: sizes) = size.toNat + rangeSize sizes := by
        rw [rangeSize, rangeSize, List.map_cons, List.sum_cons]
      rw [hrange] at hfit hi
      obtain ⟨h1, h8⟩ := hsizes size List.mem_cons_self
      rw [tileStart]
      by_cases hhere : i < size.toNat
      · have hvalue := issue_dummy_value hdummy rfl htr
        have hop : Transaction.opsize ⟨true, size, old⟩ = size.toNat := opsize_eq h1 h8
        have hbyte := readValue_byte hop h1 h8 addr dev.dummyReturnValue
          (Nat.le_add_right addr.toNat i) (Nat.add_lt_add_left hhere addr.toNat)
        rw [if_pos hhere, Nat.add_zero, List.getElem?_append_left (by rwa [leBytes_length]),
          leBytes_getElem? _ _ hhere, hvalue, ← hbyte, Nat.add_sub_cancel_left]
      · have hlast : size.toUInt64.toNat = size.toNat := UInt32.toNat_toUInt64 size
        -- another read follows, so the next address has not wrapped
        have hnext : (addr + size.toUInt64).toNat = addr.toNat + size.toNat := by
          rw [UInt64.toNat_add, hlast]
          exact Nat.mod_eq_of_lt (by omega)
        have hrest := ih (fun s hs => hsizes s (List.mem_cons_of_mem size hs))
          (by rw [hnext]; omega) (i := i - size.toNat) (by omega)
        rw [if_neg hhere, List.getElem?_append_right (by rw [leBytes_length]; omega),
          leBytes_length, hrest, hnext]
        congr 2
        · omega
        · omega

end Tiling

/-- With `use_rtl` off, a byte that two reads share has the same value in both exactly when it is in
the word of both addresses or of neither, or is 0; and two ways to cut a range into reads give the
same bytes exactly when this holds of every byte and the two reads that cover it. -/
theorem dummy_bytes_agree_iff {dev : ForwarderDevice} (hdummy : dev.useRtl = false) :
    (∀ (a b : UInt64) (n m : UInt32), AccessSizes [n, m] → a.toNat + n.toNat ≤ 2 ^ 64 →
      b.toNat + m.toNat ≤ 2 ^ 64 →
      ∀ (ma mb : ForwardReceiver) (va vb : UInt64) (ta tb : List (Σ c, SysCall.Ret c))
        (ra rb : (ExceptionType × Transaction) × ForwardReceiver),
        (issue dev { isRead := true, size := n, value := va } a ma).Trace ta (some ra) →
        (issue dev { isRead := true, size := m, value := vb } b mb).Trace tb (some rb) →
        ∀ x : ℕ, a.toNat ≤ x → x < a.toNat + n.toNat → b.toNat ≤ x → x < b.toNat + m.toNat →
          (leByte ra.1.2.value.toNat (x - a.toNat) = leByte rb.1.2.value.toNat (x - b.toNat) ↔
            SameDummyByte dev.dummyReturnValue a.toNat b.toNat x)) ∧
    ∀ (addr : UInt64) (sizes sizes' : List UInt32) (bs bs' : List UInt8), AccessSizes sizes →
      AccessSizes sizes' → rangeSize sizes' = rangeSize sizes →
      addr.toNat + rangeSize sizes ≤ 2 ^ 64 → DummyReads dev addr sizes bs →
      DummyReads dev addr sizes' bs' →
        (bs = bs' ↔ ∀ i < rangeSize sizes, SameDummyByte dev.dummyReturnValue
          (addr.toNat + tileStart sizes i) (addr.toNat + tileStart sizes' i) (addr.toNat + i)) := by
  constructor
  · intro a b n m hsizes _ _ ma mb va vb ta tb ra rb hra hrb x halo hahi hblo hbhi
    obtain ⟨hn1, hn8⟩ := hsizes n List.mem_cons_self
    obtain ⟨hm1, hm8⟩ := hsizes m (List.mem_cons_of_mem n List.mem_cons_self)
    rw [issue_dummy_value hdummy rfl hra, issue_dummy_value hdummy rfl hrb,
      readValue_byte (opsize_eq hn1 hn8) hn1 hn8 a _ halo hahi,
      readValue_byte (opsize_eq hm1 hm8) hm1 hm8 b _ hblo hbhi]
    exact dummyByte_eq_iff _ _ _ x
  · intro addr sizes sizes' bs bs' hsizes hsizes' htotal hfit hreads hreads'
    have hbyte : ∀ i < rangeSize sizes, bs[i]? = bs'[i]? ↔ SameDummyByte dev.dummyReturnValue
        (addr.toNat + tileStart sizes i) (addr.toNat + tileStart sizes' i) (addr.toNat + i) := by
      intro i hi
      rw [hreads.byte hdummy hsizes hfit hi,
        hreads'.byte hdummy hsizes' (by rw [htotal]; exact hfit) (by rw [htotal]; exact hi),
        Option.some.injEq, dummyByte_eq_iff]
    constructor
    · intro heq i hi
      exact (hbyte i hi).mp (by rw [heq])
    · intro hsame
      apply List.ext_getElem?
      intro i
      by_cases hi : i < rangeSize sizes
      · exact (hbyte i hi).mpr (hsame i hi)
      · rw [List.getElem?_eq_none (by rw [hreads.length]; omega),
          List.getElem?_eq_none (by rw [hreads'.length, htotal]; omega)]

-- the attributes as init_object sets them
def initObject : ForwarderDevice where
  dummyReturnValue := 0xfedcba9876543210
  useRtl := false
  memAccessType := false

def initObjectValue (addr : UInt64) (size : UInt32) : UInt64 :=
  readValue size.toInt32.toInt addr initObject.dummyReturnValue

theorem issue_initObject (addr old : UInt64) (size : UInt32) :
    (issue initObject { isRead := true, size, value := old } addr .init).Trace []
      (some ((.noException, ⟨true, size, initObjectValue addr size⟩), .init)) :=
  .ret _

theorem initObject_dummyReads (addr : UInt64) (sizes : List UInt32) :
    ∃ bs, DummyReads initObject addr sizes bs := by
  induction sizes generalizing addr with
  | nil => exact ⟨[], .nil addr⟩
  | cons size sizes ih =>
      obtain ⟨bs, hreads⟩ := ih (addr + size.toUInt64)
      exact ⟨_, .cons (issue_initObject addr 0 size) hreads⟩

-- byte 3 of the word, read by four bytes at 0 and by four bytes at 2; and two words, read whole and
-- with the first one in two halves
theorem dummy_bytes_agree_in_word :
    leByte (initObjectValue 0 4).toNat 3 = leByte (initObjectValue 2 4).toNat 1 ∧
      ∃ bs, DummyReads initObject 0 [8, 8] bs ∧ DummyReads initObject 0 [4, 4, 8] bs := by
  have hagree := @dummy_bytes_agree_iff initObject rfl
  have hsizes : AccessSizes [4, 4] :=
    List.forall_mem_cons.mpr ⟨by decide, List.forall_mem_singleton.mpr (by decide)⟩
  have hbyte := hagree.1 0 2 4 4 hsizes (by decide) (by decide) _ _ 0 0 [] [] _ _
    (issue_initObject 0 0 4) (issue_initObject 2 0 4) 3 (by decide) (by decide) (by decide)
    (by decide)
  refine ⟨hbyte.mpr (Or.inr (by decide)), ?_⟩
  have hsizesWhole : AccessSizes [8, 8] :=
    List.forall_mem_cons.mpr ⟨by decide, List.forall_mem_singleton.mpr (by decide)⟩
  have hsizesPieces : AccessSizes [4, 4, 8] :=
    List.forall_mem_cons.mpr ⟨by decide, List.forall_mem_cons.mpr ⟨by decide,
      List.forall_mem_singleton.mpr (by decide)⟩⟩
  obtain ⟨bs, hwhole⟩ := initObject_dummyReads 0 [8, 8]
  obtain ⟨bs', hpieces⟩ := initObject_dummyReads 0 [4, 4, 8]
  -- every tile lies in the word of each of its bytes
  have hwords : ∀ i < rangeSize [8, 8],
      (i / 8 = tileStart [8, 8] i / 8 ↔ i / 8 = tileStart [4, 4, 8] i / 8) := by decide
  have htiles : bs = bs' := by
    refine (hagree.2 0 [8, 8] [4, 4, 8] bs bs' hsizesWhole hsizesPieces (by decide) (by decide)
      hwhole hpieces).mpr fun i hi => ?_
    simp only [UInt64.toNat_zero, Nat.zero_add]
    exact Or.inr (hwords i hi)
  rw [← htiles] at hpieces
  exact ⟨bs, hwhole, hpieces⟩

-- the byte at 8, as the second byte of a read at 7 and as the first byte of a read at 8
theorem dummy_byte_lost_past_word :
    ¬ ∀ dev : ForwarderDevice, dev.useRtl = false →
      ∀ (a b : UInt64) (n m : UInt32), AccessSizes [n, m] → a.toNat + n.toNat ≤ 2 ^ 64 →
      b.toNat + m.toNat ≤ 2 ^ 64 →
      ∀ (ma mb : ForwardReceiver) (va vb : UInt64) (ta tb : List (Σ c, SysCall.Ret c))
        (ra rb : (ExceptionType × Transaction) × ForwardReceiver),
        (issue dev { isRead := true, size := n, value := va } a ma).Trace ta (some ra) →
        (issue dev { isRead := true, size := m, value := vb } b mb).Trace tb (some rb) →
        ∀ x : ℕ, a.toNat ≤ x → x < a.toNat + n.toNat → b.toNat ≤ x → x < b.toNat + m.toNat →
          leByte ra.1.2.value.toNat (x - a.toNat) = leByte rb.1.2.value.toNat (x - b.toNat) := by
  intro h
  have hsizes : AccessSizes [2, 1] :=
    List.forall_mem_cons.mpr ⟨by decide, List.forall_mem_singleton.mpr (by decide)⟩
  have hbyte := h initObject rfl 7 8 2 1 hsizes (by decide) (by decide) _ _ 0 0 [] [] _ _
    (issue_initObject 7 0 2) (issue_initObject 8 0 1) 8 (by decide) (by decide) (by decide)
    (by decide)
  exact absurd hbyte (by decide)

end SimConnect
