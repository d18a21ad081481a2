import SimConnect.Foundation.LittleEndian
import Mathlib.Tactic.Common

/-!
# C structs in byte memory

Offsets of struct members by the x86-64 C rules (every member starts at the next multiple of its
alignment), and loads and stores of byte windows in a byte-addressed memory.
-/

namespace SimConnect.Foundation

/-! ## Layout -/

structure Member where
  size : ℕ
  align : ℕ

def Member.scalar (size : ℕ) : Member := ⟨size, size⟩

def Member.byteArray (n : ℕ) : Member := ⟨n, 1⟩

def alignUp (off align : ℕ) : ℕ := (off + align - 1) / align * align

section Layout

variable {ι : Type} [DecidableEq ι]

-- the offset of member `f` when the first of `ms` may start at `off`
def offsetFrom (f : ι) : ℕ → List (ι × Member) → ℕ
  | off, [] => off
  | off, (g, m) :: ms =>
      if g = f then alignUp off m.align else offsetFrom f (alignUp off m.align + m.size) ms

def offsetOf (ms : List (ι × Member)) (f : ι) : ℕ := offsetFrom f 0 ms

def layoutEnd : ℕ → List (ι × Member) → ℕ
  | off, [] => off
  | off, (_, m) :: ms => layoutEnd (alignUp off m.align + m.size) ms

-- sizeof: the end of the last member, padded to the largest alignment
def structSize (ms : List (ι × Member)) : ℕ :=
  alignUp (layoutEnd 0 ms) ((ms.map (·.2.align)).foldl max 1)

end Layout

/-! ## Byte memory -/

abbrev Mem := ℕ → UInt8

def loadBytes (m : Mem) (off n : ℕ) : List UInt8 := (List.range n).map fun i => m (off + i)

-- memcpy of `bs` to address `off`
def storeBytes (m : Mem) (off : ℕ) (bs : List UInt8) : Mem := fun a =>
  if off ≤ a then (bs[a - off]?).getD (m a) else m a

def loadLE (m : Mem) (off n : ℕ) : ℕ := leNat (loadBytes m off n)

def storeLE (m : Mem) (off n v : ℕ) : Mem := storeBytes m off (leBytes n v)

@[simp] theorem loadBytes_length (m : Mem) (off n : ℕ) : (loadBytes m off n).length = n := by
  simp only [loadBytes, List.length_map, List.length_range]

theorem loadBytes_congr {m m' : Mem} {off off' n : ℕ}
    (h : ∀ i, i < n → m (off + i) = m' (off' + i)) : loadBytes m off n = loadBytes m' off' n := by
  apply List.map_congr_left
  intro i hi
  exact h i (List.mem_range.mp hi)

theorem loadBytes_add (m : Mem) (off a b : ℕ) :
    loadBytes m off (a + b) = loadBytes m off a ++ loadBytes m (off + a) b := by
  simp only [loadBytes, List.range_add, List.map_append, List.map_map]
  congr 1
  apply List.map_congr_left
  intro i _
  simp only [Function.comp_apply, Nat.add_assoc]

theorem storeBytes_inside (m : Mem) (off i : ℕ) (bs : List UInt8) (hi : i < bs.length) :
    storeBytes m off bs (off + i) = bs[i] := by
  unfold storeBytes
  rw [if_pos (by omega), Nat.add_sub_cancel_left, List.getElem?_eq_getElem hi, Option.getD_some]

theorem storeBytes_outside (m : Mem) (off a : ℕ) (bs : List UInt8)
    (ha : a < off ∨ off + bs.length ≤ a) : storeBytes m off bs a = m a := by
  unfold storeBytes
  split
  · rw [List.getElem?_eq_none (by omega), Option.getD_none]
  · rfl

theorem loadBytes_storeBytes (m : Mem) (off : ℕ) (bs : List UInt8) :
    loadBytes (storeBytes m off bs) off bs.length = bs := by
  apply List.ext_getElem (loadBytes_length _ _ _)
  intro i _ hi
  simp only [loadBytes, List.getElem_map, List.getElem_range]
  exact storeBytes_inside m off i bs hi

theorem loadBytes_storeBytes_of_disjoint (m : Mem) (off off' n : ℕ) (bs : List UInt8)
    (h : off' + n ≤ off ∨ off + bs.length ≤ off') :
    loadBytes (storeBytes m off bs) off' n = loadBytes m off' n := by
  apply loadBytes_congr
  intro i hi
  exact storeBytes_outside m off _ bs (by omega)

theorem loadBytes_storeLE (m : Mem) (off n v : ℕ) :
    loadBytes (storeLE m off n v) off n = leBytes n v := by
  have h := loadBytes_storeBytes m off (leBytes n v)
  rwa [leBytes_length] at h

theorem loadLE_add (m : Mem) (off a b : ℕ) :
    loadLE m off (a + b) = loadLE m off a + 256 ^ a * loadLE m (off + a) b := by
  rw [loadLE, loadBytes_add, leNat_append, loadBytes_length]
  rfl

/-! ## Storing the scalar fields of a struct one after another -/

structure Field where
  off : ℕ
  width : ℕ
  value : ℕ

def Field.Apart (f g : Field) : Prop := f.off + f.width ≤ g.off ∨ g.off + g.width ≤ f.off

instance (f g : Field) : Decidable (f.Apart g) := inferInstanceAs (Decidable (_ ∨ _))

def storeFields (m : Mem) : List Field → Mem
  | [] => m
  | f :: fs => storeFields (storeLE m f.off f.width f.value) fs

theorem storeFields_outside (m : Mem) (fs : List Field) (a : ℕ)
    (h : ∀ f ∈ fs, a < f.off ∨ f.off + f.width ≤ a) : storeFields m fs a = m a := by
  induction fs generalizing m with
  | nil => rfl
  | cons f fs ih =>
      have hf := h f List.mem_cons_self
      rw [storeFields, ih _ fun g hg => h g (List.mem_cons_of_mem f hg), storeLE,
        storeBytes_outside _ _ _ _ (by rwa [leBytes_length])]

-- fields that do not overlap all read back what was stored, whatever the order of the stores
theorem loadBytes_storeFields (m : Mem) {fs : List Field} (hd : fs.Pairwise Field.Apart)
    {f : Field} (hf : f ∈ fs) :
    loadBytes (storeFields m fs) f.off f.width = leBytes f.width f.value := by
  induction fs generalizing m with
  | nil => exact absurd hf List.not_mem_nil
  | cons g gs ih =>
      obtain ⟨hapart, hrest⟩ := List.pairwise_cons.mp hd
      rcases List.mem_cons.mp hf with rfl | hmem
      · have hframe : loadBytes (storeFields (storeLE m f.off f.width f.value) gs) f.off f.width =
            loadBytes (storeLE m f.off f.width f.value) f.off f.width := by
          apply loadBytes_congr
          intro i hi
          apply storeFields_outside
          intro g hg
          have hap := hapart g hg
          unfold Field.Apart at hap
          omega
        rw [storeFields, hframe, loadBytes_storeLE]
      · exact ih _ hrest hmem

end SimConnect.Foundation
