import Mathlib.Data.Nat.Digits.Defs
import Mathlib.Tactic.Ring

/-!
# Little-endian words as byte lists

`leBytes n v` is the `n`-byte little-endian image of `v` and `leNat` reads such an image back.
The value side is `Nat.ofDigits` in base 256.
-/

namespace SimConnect.Foundation

def leBytes : ℕ → ℕ → List UInt8
  | 0, _ => []
  | n + 1, v => UInt8.ofNat v :: leBytes n (v / 256)

def leNat (bs : List UInt8) : ℕ := Nat.ofDigits 256 (bs.map UInt8.toNat)

@[simp] theorem leBytes_length (n v : ℕ) : (leBytes n v).length = n := by
  induction n generalizing v with
  | zero => rfl
  | succ n ih => simp only [leBytes, List.length_cons, ih]

@[simp] theorem leNat_nil : leNat [] = 0 := rfl

@[simp] theorem leNat_cons (b : UInt8) (bs : List UInt8) :
    leNat (b :: bs) = b.toNat + 256 * leNat bs := by
  simp only [leNat, List.map_cons, Nat.ofDigits_cons]

theorem leNat_append (as bs : List UInt8) :
    leNat (as ++ bs) = leNat as + 256 ^ as.length * leNat bs := by
  simp only [leNat, List.map_append, Nat.ofDigits_append, List.length_map]

private theorem digit_lt (bs : List UInt8) : ∀ d ∈ bs.map UInt8.toNat, d < 256 := by
  intro d hd
  obtain ⟨b, -, rfl⟩ := List.mem_map.mp hd
  exact b.toNat_lt

theorem leNat_lt (bs : List UInt8) : leNat bs < 256 ^ bs.length := by
  have h := Nat.ofDigits_lt_base_pow_length (b := 256) (by decide) (digit_lt bs)
  rwa [List.length_map] at h

theorem leNat_leBytes (n v : ℕ) : leNat (leBytes n v) = v % 256 ^ n := by
  induction n generalizing v with
  | zero => simp only [leBytes, leNat_nil, pow_zero, Nat.mod_one]
  | succ n ih =>
      rw [leBytes, leNat_cons, ih, UInt8.toNat_ofNat']
      change v % 256 + 256 * (v / 256 % 256 ^ n) = v % 256 ^ (n + 1)
      rw [pow_succ' 256 n, Nat.mod_mul]

theorem leNat_leBytes_of_lt {n v : ℕ} (h : v < 256 ^ n) : leNat (leBytes n v) = v := by
  rw [leNat_leBytes, Nat.mod_eq_of_lt h]

theorem leBytes_leNat (bs : List UInt8) : leBytes bs.length (leNat bs) = bs := by
  induction bs with
  | nil => rfl
  | cons b bs ih =>
      have hb : b.toNat < 256 := b.toNat_lt
      rw [List.length_cons, leBytes, leNat_cons, Nat.add_mul_div_left _ _ (by decide),
        Nat.div_eq_of_lt hb, Nat.zero_add, ih]
      congr 1
      apply UInt8.toNat_inj.mp
      rw [UInt8.toNat_ofNat']
      omega

/-! ## Single bytes -/

-- the byte of weight 256 ^ i
def leByte (v i : ℕ) : UInt8 := UInt8.ofNat (v / 256 ^ i)

theorem leBytes_getElem? (n v : ℕ) {i : ℕ} (hi : i < n) :
    (leBytes n v)[i]? = some (leByte v i) := by
  induction n generalizing v i with
  | zero => exact absurd hi (Nat.not_lt_zero i)
  | succ n ih =>
      cases i with
      | zero => rw [leBytes, List.getElem?_cons_zero, leByte, pow_zero, Nat.div_one]
      | succ i =>
          rw [leBytes, List.getElem?_cons_succ, ih (v / 256) (Nat.lt_of_succ_lt_succ hi), leByte,
            leByte, Nat.div_div_eq_div_mul, pow_succ']

-- a word holds the bytes that it was put together from
theorem leBytes_leNat_getElem? {n : ℕ} {bytes : List UInt8} (hn : bytes.length ≤ n) {i : ℕ}
    (hi : i < bytes.length) : (leBytes n (leNat bytes))[i]? = bytes[i]? := by
  have hbytes := leBytes_getElem? bytes.length (leNat bytes) hi
  rw [leBytes_leNat] at hbytes
  rw [hbytes, leBytes_getElem? n (leNat bytes) (lt_of_lt_of_le hi hn)]

-- the bytes of a field of `n` bytes that starts at byte `k`
theorem leByte_field (v k : ℕ) {n j : ℕ} (hj : j < n) :
    leByte (v / 256 ^ k % 256 ^ n) j = leByte v (k + j) := by
  have hpow : 256 ^ n = 256 ^ j * 256 ^ (n - j) := by
    rw [← pow_add]
    congr 1
    omega
  have hdvd : 256 ∣ 256 ^ (n - j) := dvd_pow_self 256 (by omega)
  apply UInt8.toNat_inj.mp
  rw [leByte, leByte, UInt8.toNat_ofNat', UInt8.toNat_ofNat', hpow, Nat.mod_mul_right_div_self,
    Nat.div_div_eq_div_mul, ← pow_add]
  exact Nat.mod_mod_of_dvd _ hdvd

theorem leByte_of_lt {v n i : ℕ} (hv : v < 256 ^ n) (hi : n ≤ i) : leByte v i = 0 := by
  have hlt : v < 256 ^ i := lt_of_lt_of_le hv (Nat.pow_le_pow_right (by decide) hi)
  rw [leByte, Nat.div_eq_of_lt hlt]
  rfl

/-! ## Words of the machine -/

@[simp] theorem leNat_leBytes_uint32 (x : UInt32) : leNat (leBytes 4 x.toNat) = x.toNat :=
  leNat_leBytes_of_lt x.toNat_lt

@[simp] theorem leNat_leBytes_uint64 (x : UInt64) : leNat (leBytes 8 x.toNat) = x.toNat :=
  leNat_leBytes_of_lt x.toNat_lt

end SimConnect.Foundation
