import SimConnect.IssueCalls

/-!
# The size of a transaction

`issue` checks neither the size nor the address.  The mask shift, `data_size` and the copy of the
payload each assume a size of its own.
-/

open SimConnect.Foundation

namespace SimConnect

/-! ## What issue does with the size -/

-- the counts of the shifts of a read: of the mask and of the value
def readShifts (opsize : ℤ) (addr : UInt64) : List ℤ := [64 - opsize * 8, alignOf addr * 8]

/-- What an access of the transaction `t` with the bytes `bytes` owes to its size, whatever calls
`tr` it makes and however it ends. -/
structure SafeIssue (t : Transaction) (addr : UInt64) (bytes : List UInt8) (tr : SysTrace)
    (o : Option ((ExceptionType × Transaction) × ForwardReceiver)) : Prop where
  shifts : t.isRead = true → ∀ count ∈ readShifts t.opsize addr, 0 ≤ count ∧ count ≤ 63
  dataSize : ∀ fd p r, ⟨.write fd p, r⟩ ∈ tr → p.dataSize.toNat ≤ maxPayloadSize
  payload : t.isRead = false → ∀ fd p r, ⟨.write fd p, r⟩ ∈ tr →
    ∀ i, i < p.dataSize.toNat → p.data.toList[i]? = bytes[i]?
  refused : ¬ (1 ≤ t.size.toNat ∧ t.size.toNat ≤ 8) →
    (∃ x, o = some x ∧ x.1.1 ≠ .noException) ∧ ∀ fd p r, ⟨.write fd p, r⟩ ∉ tr

section Sizes

variable {dev : ForwarderDevice} {t : Transaction} {addr : UInt64} {m : ForwardReceiver}
  {tr : SysTrace} {o : Option ((ExceptionType × Transaction) × ForwardReceiver)}

theorem readShifts_in_range {opsize : ℤ} {n : ℕ} (hn : opsize = n) (h1 : 1 ≤ n) (h8 : n ≤ 8)
    (addr : UInt64) : ∀ count ∈ readShifts opsize addr, 0 ≤ count ∧ count ≤ 63 := by
  have halign : 0 ≤ alignOf addr ∧ alignOf addr ≤ 7 := by
    rw [alignOf_eq]
    omega
  intro count hcount
  rw [readShifts, List.mem_cons, List.mem_singleton] at hcount
  rcases hcount with hmask | hvalue
  · omega
  · omega

-- with use_rtl off issue makes no call
theorem issue_dummy_calls (hdummy : dev.useRtl = false) (htr : (issue dev t addr m).Trace tr o) :
    tr = [] := by
  rw [issue, hdummy, if_neg Bool.false_ne_true] at htr
  by_cases hread : t.isRead = true
  · rw [if_pos hread] at htr
    cases htr
    rfl
  · rw [if_neg hread] at htr
    cases htr
    rfl

-- what an access writes, on both paths
theorem issue_writes (htr : (issue dev t addr m).Trace tr o) {fd : ℤ} {p : SimicsTransaction}
    {r : ℤ} (hmem : ⟨.write fd p, r⟩ ∈ tr) : p = sentPacket dev t addr m := by
  cases hrtl : dev.useRtl with
  | true => exact issue_enqueues hrtl htr hmem
  | false =>
      rw [issue_dummy_calls hrtl htr] at hmem
      exact absurd hmem List.not_mem_nil

theorem sentPacket_dataSize (dev : ForwarderDevice) (t : Transaction) (addr : UInt64)
    (m : ForwardReceiver) : (sentPacket dev t addr m).dataSize = t.size := by
  unfold sentPacket requestPacket
  cases t.isRead <;> rfl

-- the first eight bytes of the payload are the value, the others the zeros of the memset
theorem storeValue_getElem? (data : Vector UInt8 maxPayloadSize) (val : UInt64) {i : ℕ}
    (hi : i < 8) : (storeValue data val).toList[i]? = (leBytes 8 val.toNat)[i]? := by
  have hlen : i < (leBytes 8 val.toNat).length := by
    rw [leBytes_length]
    exact hi
  unfold storeValue
  generalize leBytes 8 val.toNat = bs at hlen ⊢
  have hlist : i <
      (Vector.ofFn fun j : Fin maxPayloadSize => bs.getD j (data.get j)).toList.length := by
    rw [Vector.length_toList]
    exact lt_trans hi (by decide)
  rw [List.getElem?_eq_getElem hlist, List.getElem?_eq_getElem hlen, Vector.getElem_toList]
  simp only [Vector.getElem_ofFn]
  rw [List.getD_eq_getElem _ _ hlen]

theorem sentPacket_payload {bytes : List UInt8} (hwrite : t.isRead = false)
    (hlen : bytes.length = t.size.toNat) (h8 : t.size.toNat ≤ 8)
    (hvalue : t.value.toNat = leNat bytes) {i : ℕ}
    (hi : i < (sentPacket dev t addr m).dataSize.toNat) :
    (sentPacket dev t addr m).data.toList[i]? = bytes[i]? := by
  rw [sentPacket_dataSize, ← hlen] at hi
  rw [← hlen] at h8
  have hdata : (sentPacket dev t addr m).data = storeValue SimicsTransaction.zero.data t.value := by
    unfold sentPacket requestPacket
    rw [hwrite]
    rfl
  rw [hdata, storeValue_getElem? _ _ (lt_of_lt_of_le hi h8), hvalue]
  exact leBytes_leNat_getElem? h8 hi

-- no size and no address is refused
theorem issue_noException (htr : (issue dev t addr m).Trace tr o)
    {x : (ExceptionType × Transaction) × ForwardReceiver} (hx : o = some x) :
    x.1.1 = .noException := by
  cases hrtl : dev.useRtl with
  | true =>
      obtain ⟨res, _, _, hsome⟩ := issue_calls hrtl htr
      obtain ⟨r, _, hexc, _⟩ := hsome x hx
      exact hexc
  | false =>
      rw [issue, hrtl, if_neg Bool.false_ne_true] at htr
      by_cases hread : t.isRead = true
      · rw [if_pos hread] at htr
        cases htr
        rw [← Option.some.inj hx]
      · rw [if_neg hread] at htr
        cases htr
        rw [← Option.some.inj hx]

/-- An access is safe exactly when its size is one that a processor uses: 1 to 8 bytes. -/
theorem issue_safe_iff (htr : (issue dev t addr m).Trace tr o) {bytes : List UInt8}
    (hlen : bytes.length = t.size.toNat)
    (hvalue : t.isRead = false → t.size.toNat ≤ 8 → t.value.toNat = leNat bytes) :
    SafeIssue t addr bytes tr o ↔ 1 ≤ t.size.toNat ∧ t.size.toNat ≤ 8 := by
  constructor
  · intro h
    by_contra hsize
    obtain ⟨x, hx, hexc⟩ := (h.refused hsize).1
    exact hexc (issue_noException htr hx)
  · rintro ⟨h1, h8⟩
    refine ⟨fun _ => ?_, fun fd p r hmem => ?_, fun hwrite fd p r hmem i hi => ?_,
      fun hsize => absurd ⟨h1, h8⟩ hsize⟩
    · exact readShifts_in_range (opsize_eq h1 h8) h1 h8 addr
    · rw [issue_writes htr hmem, sentPacket_dataSize]
      exact le_trans h8 (by decide)
    · rw [issue_writes htr hmem] at hi ⊢
      exact sentPacket_payload hwrite hlen h8 (hvalue hwrite h8) hi

end Sizes

-- a write of four bytes
theorem issue_safe_word : ∃ (tr : SysTrace)
    (o : Option ((ExceptionType × Transaction) × ForwardReceiver)),
    (issue rtlDevice { isRead := false, size := 4, value := 0x12345678 } 8 .init).Trace tr o ∧
      SafeIssue { isRead := false, size := 4, value := 0x12345678 } 8
        [0x78, 0x56, 0x34, 0x12] tr o := by
  have htr := Prog.trace_runWith (fun (_ : Unit) c => (answerWith .zero c, ()))
    (issue rtlDevice { isRead := false, size := 4, value := 0x12345678 } 8 .init) ()
  exact ⟨_, _, htr, (issue_safe_iff htr rfl fun _ _ => by decide).mpr (by decide)⟩

/-- A read of no bytes is answered like any other, after a shift by 64. -/
theorem empty_read_not_refused :
    ¬ ∀ (dev : ForwarderDevice) (t : Transaction) (addr : UInt64) (m : ForwardReceiver)
      (tr : SysTrace) (o : Option ((ExceptionType × Transaction) × ForwardReceiver)),
      (issue dev t addr m).Trace tr o → ∀ bytes : List UInt8, bytes.length = t.size.toNat →
      (t.isRead = false → t.size.toNat ≤ 8 → t.value.toNat = leNat bytes) →
      SafeIssue t addr bytes tr o := by
  intro h
  have htr := Prog.trace_runWith (fun (_ : Unit) c => (answerWith .zero c, ()))
    (issue rtlDevice { isRead := true, size := 0, value := 0 } 0 .init) ()
  have hsafe := h rtlDevice { isRead := true, size := 0, value := 0 } 0 .init _ _ htr [] rfl
    (fun _ _ => rfl)
  have hshift := hsafe.shifts rfl 64 List.mem_cons_self
  exact absurd hshift.2 (by decide)

end SimConnect
