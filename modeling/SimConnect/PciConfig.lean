import SimConnect.Foundation.LittleEndian
import SimConnect.Foundation.Machine

/-!
# forward-pcie-main.dml: accesses to the PCI configuration bank

`io_memory_access` lets the bank handle the operation first and then repeats every read and write at
`pci_config_forward`.  The bank's own access and the object forwarded to are parameters: a function
of the bank's state and the operation, and an object with a state of its own whose two methods may
throw.
-/

open SimConnect.Foundation

namespace SimConnect

/-! ## Operations -/

inductive MemOpKind
  | read
  | write
  | other
  deriving DecidableEq

/-- A `generic_transaction_t` that reaches the bank: 8 bytes or smaller. -/
structure MemOp where
  kind : MemOpKind
  data : List UInt8
  small : data.length ≤ 8

namespace MemOp

def size (memop : MemOp) : ℕ := memop.data.length

def isRead (memop : MemOp) : Bool := memop.kind = .read

def isWrite (memop : MemOp) : Bool := memop.kind = .write

-- SIM_get_mem_op_value_le and SIM_set_mem_op_value_le
def valueLe (memop : MemOp) : UInt64 := UInt64.ofNat (leNat memop.data)

def setValueLe (memop : MemOp) (value : UInt64) : MemOp where
  kind := memop.kind
  data := leBytes memop.data.length value.toNat
  small := by rw [leBytes_length]; exact memop.small

@[simp] theorem setValueLe_size (memop : MemOp) (value : UInt64) :
    (memop.setValueLe value).size = memop.size := leBytes_length _ _

@[simp] theorem setValueLe_isRead (memop : MemOp) (value : UInt64) :
    (memop.setValueLe value).isRead = memop.isRead := rfl

theorem valueLe_toNat (memop : MemOp) : memop.valueLe.toNat = leNat memop.data := by
  have hlt : leNat memop.data < 256 ^ memop.data.length := leNat_lt memop.data
  have hpow : 256 ^ memop.data.length ≤ 256 ^ 8 := Nat.pow_le_pow_right (by decide) memop.small
  have hsize : leNat memop.data < 2 ^ 64 := by
    calc leNat memop.data < 256 ^ memop.data.length := hlt
      _ ≤ 256 ^ 8 := hpow
      _ = 2 ^ 64 := by decide
  exact UInt64.toNat_ofNat_of_lt' hsize

-- a value is cut to the size of the operation that carries it
theorem valueLe_setValueLe (memop : MemOp) (value : UInt64) :
    (memop.setValueLe value).valueLe.toNat = value.toNat % 256 ^ memop.size := by
  rw [valueLe_toNat, setValueLe, leNat_leBytes, size]

theorem valueLe_setValueLe_of_lt (memop : MemOp) {value : UInt64}
    (h : value.toNat < 256 ^ memop.size) : (memop.setValueLe value).valueLe = value := by
  apply UInt64.toNat_inj.mp
  rw [valueLe_setValueLe, Nat.mod_eq_of_lt h]

end MemOp

/-- One operation of the initiator.  `useRtl` is the value of the attribute at that time. -/
structure ConfigAccess (A : Type) where
  memop : MemOp
  offset : UInt64
  aux : A
  useRtl : Bool

/-! ## The two parties of an access -/

variable {A B F G : Type}

/-- The bank's inherited `io_memory_access`: a new state, the value read and the result. -/
abbrev InheritedAccess (A B : Type) := B → MemOp → UInt64 → A → B × UInt64 × Bool

/-- What the bank leaves in the operation and returns. -/
structure BankOutcome where
  memop : MemOp
  result : Bool

-- `default(memop, offset, aux)`: only a read has its value stored
def bankAccess (inherited : InheritedAccess A B) : Machine B (ConfigAccess A) BankOutcome :=
  fun bank access =>
    let (bank', value, result) := inherited bank access.memop access.offset access.aux
    let memop := if access.memop.isRead then access.memop.setValueLe value else access.memop
    (bank', { memop, result })

/-- An object with the `map_target` methods `read` and `write`.  `none` is an exception. -/
structure MapTarget (F : Type) where
  read : F → (offset : UInt64) → (size : ℕ) → F × Option UInt64
  write : F → (offset : UInt64) → (size : ℕ) → (value : UInt64) → F × Option Unit

inductive ForwardCall
  | read (offset : UInt64) (size : ℕ)
  | write (offset : UInt64) (size : ℕ) (value : UInt64)
  deriving DecidableEq

inductive ForwardAnswer
  | read (value : Option UInt64)
  | write (done : Option Unit)
  deriving DecidableEq

def ForwardAnswer.threw : ForwardAnswer → Bool
  | .read value => value.isNone
  | .write done => done.isNone

namespace MapTarget

-- the object on its own, handed a call or left alone
def serve (fwd : MapTarget F) : Machine F (Option ForwardCall) (Option ForwardAnswer)
  | f, none => (f, none)
  | f, some (.read offset size) =>
      let (f', value) := fwd.read f offset size
      (f', some (.read value))
  | f, some (.write offset size value) =>
      let (f', done) := fwd.write f offset size value
      (f', some (.write done))

end MapTarget

/-! ## io_memory_access -/

structure LogLine where
  isError : Bool
  level : ℕ
  text : String
  args : List ℕ
  deriving DecidableEq

structure ConfigOutcome where
  memop : MemOp
  result : Bool
  calls : List ForwardCall
  logs : List LogLine

-- the source's log lines, all in the group PCIe
namespace LogLine

def forwardRead (offset : UInt64) (opsize : ℕ) : LogLine :=
  ⟨false, 3, "Forwarding memory operation: read from 0x%x size %d", [offset.toNat, opsize]⟩

def readFailed : LogLine :=
  ⟨true, 1, "Failed to pass on read from pci_config!", []⟩

def forwardedRead (offset fwdVal bankVal : UInt64) : LogLine :=
  ⟨false, 2, "Using forwarded read result: read from 0x%x -> 0x%x (instead of 0x%x)",
    [offset.toNat, fwdVal.toNat, bankVal.toNat]⟩

def bankRead (offset bankVal : UInt64) : LogLine :=
  ⟨false, 2, "DML bank provided read result: read from 0x%x -> 0x%x",
    [offset.toNat, bankVal.toNat]⟩

def forwardWrite (offset : UInt64) (opsize : ℕ) (val : UInt64) : LogLine :=
  ⟨false, 3, "Forwarding memory operation: write to 0x%x size %d value=0x%x",
    [offset.toNat, opsize, val.toNat]⟩

def writeFailed : LogLine :=
  ⟨true, 1, "Failed to pass on write from pci_config!", []⟩

def neitherReadNorWrite : LogLine :=
  ⟨false, 2, "Memory operation neither read nor write, bizarre. Not passing on.", []⟩

end LogLine

def ioMemoryAccess (inherited : InheritedAccess A B) (pciConfigForward : MapTarget F) :
    Machine (B × F) (ConfigAccess A) ConfigOutcome
  | (bank, f), access =>
    let (bank', { memop, result }) := bankAccess inherited bank access
    let offset := access.offset
    let opsize := memop.size
    if memop.isRead then
      let bankVal := memop.valueLe
      let calls := [.read offset opsize]
      match pciConfigForward.read f offset opsize with
      | (f', none) =>
          ((bank', f'), ⟨memop, result, calls, [.forwardRead offset opsize, .readFailed]⟩)
      | (f', some fwdVal) =>
          if access.useRtl then
            ((bank', f'), ⟨memop.setValueLe fwdVal, result, calls,
              [.forwardRead offset opsize, .forwardedRead offset fwdVal bankVal]⟩)
          else
            ((bank', f'), ⟨memop, result, calls,
              [.forwardRead offset opsize, .bankRead offset bankVal]⟩)
    else if memop.isWrite then
      let val := memop.valueLe
      let calls := [.write offset opsize val]
      match pciConfigForward.write f offset opsize val with
      | (f', none) =>
          ((bank', f'), ⟨memop, result, calls, [.forwardWrite offset opsize val, .writeFailed]⟩)
      | (f', some ()) =>
          ((bank', f'), ⟨memop, result, calls, [.forwardWrite offset opsize val]⟩)
    else
      ((bank', f), ⟨memop, result, [], [.neitherReadNorWrite]⟩)

/-! ## One access -/

-- what is to be passed on: the operation as the initiator sent it
def ConfigAccess.request (access : ConfigAccess A) : Option ForwardCall :=
  match access.memop.kind with
  | .read => some (.read access.offset access.memop.size)
  | .write => some (.write access.offset access.memop.size access.memop.valueLe)
  | .other => none

-- what the initiator gets back: where `use_rtl` is set, a read carries the object's answer
def ConfigAccess.answered (access : ConfigAccess A) (memop : MemOp) : Option ForwardAnswer → MemOp
  | some (.read (some fwdVal)) => if access.useRtl then memop.setValueLe fwdVal else memop
  | _ => memop

section Step

variable (inherited : InheritedAccess A B) (fwd : MapTarget F) (bank : B) (f : F)
  (access : ConfigAccess A)

/-- An access of any kind comes to the bank's own access and the request handed to the object; an
error is logged exactly when the object throws. -/
structure AccessSpec (step : (B × F) × ConfigOutcome) : Prop where
  bankState : step.1.1 = (bankAccess inherited bank access).1
  result : step.2.result = (bankAccess inherited bank access).2.result
  object : step.1.2 = (fwd.serve f access.request).1
  calls : step.2.calls = access.request.toList
  memop : step.2.memop = access.answered (bankAccess inherited bank access).2.memop
    (fwd.serve f access.request).2
  error : step.2.logs.any LogLine.isError =
    (fwd.serve f access.request).2.any ForwardAnswer.threw

theorem bankAccess_isRead :
    (bankAccess inherited bank access).2.memop.isRead = access.memop.isRead := by
  unfold bankAccess
  by_cases h : access.memop.isRead
  · simp only [h, if_true, MemOp.setValueLe_isRead]
  · simp only [h, if_false, Bool.false_eq_true]

theorem bankAccess_size :
    (bankAccess inherited bank access).2.memop.size = access.memop.size := by
  unfold bankAccess
  by_cases h : access.memop.isRead
  · simp only [h, if_true, MemOp.setValueLe_size]
  · simp only [h, if_false, Bool.false_eq_true]

-- the bank leaves what is not a read as it is
theorem bankAccess_memop (h : access.memop.isRead = false) :
    (bankAccess inherited bank access).2.memop = access.memop := by
  simp only [bankAccess, h, Bool.false_eq_true, if_false]

theorem ioMemoryAccess_of_read (h : access.memop.kind = .read) :
    AccessSpec inherited fwd bank f access (ioMemoryAccess inherited fwd (bank, f) access) := by
  have hread : (bankAccess inherited bank access).2.memop.isRead = true := by
    rw [bankAccess_isRead, MemOp.isRead, h]
    rfl
  have hsize := bankAccess_size inherited bank access
  have hrequest : access.request = some (.read access.offset access.memop.size) := by
    rw [ConfigAccess.request, h]
  have hserve : fwd.serve f access.request =
      ((fwd.read f access.offset access.memop.size).1,
        some (.read (fwd.read f access.offset access.memop.size).2)) := by rw [hrequest]; rfl
  simp only [ioMemoryAccess, hread, hsize, if_true]
  cases hanswer : fwd.read f access.offset access.memop.size with
  | mk f' value =>
      rw [hanswer] at hserve
      cases value with
      | none =>
          exact ⟨rfl, rfl, by rw [hserve], by rw [hrequest]; rfl, by rw [hserve]; rfl,
            by rw [hserve]; rfl⟩
      | some fwdVal =>
          cases hrtl : access.useRtl with
          | true =>
              exact ⟨rfl, rfl, by rw [hserve]; rfl, by rw [hrequest]; rfl,
                by rw [hserve, ConfigAccess.answered, hrtl]; rfl, by rw [hserve]; rfl⟩
          | false =>
              exact ⟨rfl, rfl, by rw [hserve]; rfl, by rw [hrequest]; rfl,
                by rw [hserve, ConfigAccess.answered, hrtl]; rfl, by rw [hserve]; rfl⟩

theorem ioMemoryAccess_of_write (h : access.memop.kind = .write) :
    AccessSpec inherited fwd bank f access (ioMemoryAccess inherited fwd (bank, f) access) := by
  have hread : access.memop.isRead = false := by rw [MemOp.isRead, h]; rfl
  have hwrite : access.memop.isWrite = true := by rw [MemOp.isWrite, h]; rfl
  have hmemop := bankAccess_memop inherited bank access hread
  have hrequest : access.request =
      some (.write access.offset access.memop.size access.memop.valueLe) := by
    rw [ConfigAccess.request, h]
  have hserve : fwd.serve f access.request =
      ((fwd.write f access.offset access.memop.size access.memop.valueLe).1,
        some (.write (fwd.write f access.offset access.memop.size access.memop.valueLe).2)) := by
    rw [hrequest]
    rfl
  simp only [ioMemoryAccess, hmemop, hread, hwrite, if_true, Bool.false_eq_true, if_false]
  cases hanswer : fwd.write f access.offset access.memop.size access.memop.valueLe with
  | mk f' done =>
      rw [hanswer] at hserve
      cases done with
      | none =>
          exact ⟨rfl, rfl, by rw [hserve], by rw [hrequest]; rfl,
            by rw [hserve, hmemop]; rfl, by rw [hserve]; rfl⟩
      | some _ =>
          exact ⟨rfl, rfl, by rw [hserve], by rw [hrequest]; rfl,
            by rw [hserve, hmemop]; rfl, by rw [hserve]; rfl⟩

theorem ioMemoryAccess_of_other (h : access.memop.kind = .other) :
    AccessSpec inherited fwd bank f access (ioMemoryAccess inherited fwd (bank, f) access) := by
  have hread : access.memop.isRead = false := by rw [MemOp.isRead, h]; rfl
  have hwrite : access.memop.isWrite = false := by rw [MemOp.isWrite, h]; rfl
  have hmemop := bankAccess_memop inherited bank access hread
  have hrequest : access.request = none := by rw [ConfigAccess.request, h]
  simp only [ioMemoryAccess, hmemop, hread, hwrite, Bool.false_eq_true, if_false]
  exact ⟨rfl, rfl, by rw [hrequest]; rfl, by rw [hrequest]; rfl, by rw [hrequest, hmemop]; rfl,
    by rw [hrequest]; rfl⟩

theorem ioMemoryAccess_spec :
    AccessSpec inherited fwd bank f access (ioMemoryAccess inherited fwd (bank, f) access) := by
  cases h : access.memop.kind with
  | read => exact ioMemoryAccess_of_read inherited fwd bank f access h
  | write => exact ioMemoryAccess_of_write inherited fwd bank f access h
  | other => exact ioMemoryAccess_of_other inherited fwd bank f access h

-- without `use_rtl` no answer gets through
theorem ConfigAccess.answered_of_useRtl {access : ConfigAccess A} (h : access.useRtl = false)
    (memop : MemOp) (answer : Option ForwardAnswer) : access.answered memop answer = memop := by
  unfold ConfigAccess.answered
  split
  · rw [h]
    rfl
  · rfl

end Step

/-! ## Runs -/

/-- The operation with the value that the inherited access gives alone. -/
def BankReturns (inherited : InheritedAccess A B) (access : ConfigAccess A)
    (step : MachineStep (B × F) ConfigOutcome) : Prop :=
  step.output.memop = access.memop.setValueLe
    (inherited step.before.1 access.memop access.offset access.aux).2.1

/-- The read returns what the object answered, cut to the size of the operation, or what the bank
answered when the object threw. -/
def ReadReturns (inherited : InheritedAccess A B) (fwd : MapTarget F) (access : ConfigAccess A)
    (step : MachineStep (B × F) ConfigOutcome) : Prop :=
  match (fwd.read step.before.2 access.offset access.memop.size).2 with
  | some fwdVal =>
      step.output.memop.valueLe.toNat = fwdVal.toNat % 256 ^ access.memop.size ∧
        (fwdVal.toNat < 256 ^ access.memop.size → step.output.memop.valueLe = fwdVal)
  | none => BankReturns inherited access step

/-- The object gets the operation once, as the initiator sent it, and nothing else. -/
def PassedOnce (fwd : MapTarget F) (access : ConfigAccess A)
    (step : MachineStep (B × F) ConfigOutcome) : Prop :=
  step.output.calls = access.request.toList ∧
    step.after.2 = (fwd.serve step.before.2 access.request).1

section Runs

variable (inherited : InheritedAccess A B)

-- the inherited access without the override: the bank's states and its results
def inheritedAlone : Machine B (ConfigAccess A) Bool := fun bank access =>
  let (bank', _, result) := inherited bank access.memop access.offset access.aux
  (bank', result)

theorem bankAccess_alone (bank : B) (access : ConfigAccess A) :
    inheritedAlone inherited bank access =
      ((bankAccess inherited bank access).1, (bankAccess inherited bank access).2.result) := rfl

-- whatever the object does, the bank's side of a run is the run of the inherited access
theorem ioMemoryAccess_run_bank (fwd : MapTarget F) (bank : B) (f : F)
    (accesses : List (ConfigAccess A)) :
    ((ioMemoryAccess inherited fwd).run (bank, f) accesses).map
        (MachineStep.map Prod.fst ConfigOutcome.result) =
      (inheritedAlone inherited).run bank accesses := by
  apply Machine.run_project
  intro st access
  have hspec := ioMemoryAccess_spec inherited fwd st.1 st.2 access
  rw [bankAccess_alone]
  exact Prod.ext hspec.bankState.symm hspec.result.symm

theorem bankAccess_of_read {access : ConfigAccess A} (hkind : access.memop.kind = .read)
    (bank : B) : (bankAccess inherited bank access).2.memop =
      access.memop.setValueLe (inherited bank access.memop access.offset access.aux).2.1 := by
  have hread : access.memop.isRead = true := by
    rw [MemOp.isRead, hkind]
    rfl
  simp only [bankAccess, hread, if_true]

theorem readReturns_of_step {fwd : MapTarget F} {access : ConfigAccess A}
    {step : MachineStep (B × F) ConfigOutcome} (hkind : access.memop.kind = .read)
    (hrtl : access.useRtl = true)
    (hstep : (step.after, step.output) = ioMemoryAccess inherited fwd step.before access) :
    ReadReturns inherited fwd access step := by
  have hmemop := (ioMemoryAccess_spec inherited fwd step.before.1 step.before.2 access).memop
  have hsize := bankAccess_size inherited step.before.1 access
  have hserve : (fwd.serve step.before.2 access.request).2 =
      some (.read (fwd.read step.before.2 access.offset access.memop.size).2) := by
    rw [ConfigAccess.request, hkind]
    rfl
  rw [hserve] at hmemop
  unfold ReadReturns
  rw [show step.output = (ioMemoryAccess inherited fwd step.before access).2 from
    congrArg Prod.snd hstep]
  cases hanswer : (fwd.read step.before.2 access.offset access.memop.size).2 with
  | none =>
      rw [hanswer] at hmemop
      have hout : step.output.memop = (bankAccess inherited step.before.1 access).2.memop :=
        (congrArg (fun x => x.2.memop) hstep).trans hmemop
      rw [bankAccess_of_read inherited hkind] at hout
      exact hout
  | some fwdVal =>
      simp only [hmemop, hanswer, ConfigAccess.answered, hrtl, if_true]
      refine ⟨?_, ?_⟩
      · rw [MemOp.valueLe_setValueLe, hsize]
      · intro hlt
        exact MemOp.valueLe_setValueLe_of_lt _ (by rw [hsize]; exact hlt)

theorem passedOnce_of_step {fwd : MapTarget F} {access : ConfigAccess A}
    {step : MachineStep (B × F) ConfigOutcome}
    (hstep : (step.after, step.output) = ioMemoryAccess inherited fwd step.before access) :
    PassedOnce fwd access step := by
  have hspec := ioMemoryAccess_spec inherited fwd step.before.1 step.before.2 access
  unfold PassedOnce
  rw [show step.output = (ioMemoryAccess inherited fwd step.before access).2 from
      congrArg Prod.snd hstep,
    show step.after = (ioMemoryAccess inherited fwd step.before access).1 from
      congrArg Prod.fst hstep]
  exact ⟨hspec.calls, hspec.object⟩

theorem bankReturns_of_step {fwd : MapTarget F} {access : ConfigAccess A}
    {step : MachineStep (B × F) ConfigOutcome} (hkind : access.memop.kind = .read)
    (hrtl : access.useRtl = false)
    (hstep : (step.after, step.output) = ioMemoryAccess inherited fwd step.before access) :
    BankReturns inherited access step := by
  have hmemop := (ioMemoryAccess_spec inherited fwd step.before.1 step.before.2 access).memop
  rw [ConfigAccess.answered_of_useRtl hrtl, bankAccess_of_read inherited hkind] at hmemop
  exact (congrArg (fun x => x.2.memop) hstep).trans hmemop

/-- Whatever `pci_config_forward` is and does, the bank goes through the states and returns the
results of the inherited access alone; the object's answers reach the initiator where `use_rtl` is
set and nowhere else; and the object is handed exactly the reads and writes of the initiator. -/
theorem ioMemoryAccess_undisturbed (fwd₁ : MapTarget F) (fwd₂ : MapTarget G) (bank : B) (f : F)
    (g : G) (accesses : List (ConfigAccess A)) :
    let run₁ := (ioMemoryAccess inherited fwd₁).run (bank, f) accesses
    let run₂ := (ioMemoryAccess inherited fwd₂).run (bank, g) accesses
    run₁.map (MachineStep.map Prod.fst ConfigOutcome.result) =
        (inheritedAlone inherited).run bank accesses ∧
      run₂.map (MachineStep.map Prod.fst ConfigOutcome.result) =
        (inheritedAlone inherited).run bank accesses ∧
      ∀ (k : ℕ) (access : ConfigAccess A), accesses[k]? = some access →
        ∃ step₁ step₂, run₁[k]? = some step₁ ∧ run₂[k]? = some step₂ ∧
          (access.useRtl = false → step₁.output.memop = step₂.output.memop ∧
            (access.memop.kind = .read → BankReturns inherited access step₁)) ∧
          (access.useRtl = true → access.memop.kind = .read →
            ReadReturns inherited fwd₁ access step₁) ∧
          PassedOnce fwd₁ access step₁ := by
  have hbank₁ := ioMemoryAccess_run_bank inherited fwd₁ bank f accesses
  have hbank₂ := ioMemoryAccess_run_bank inherited fwd₂ bank g accesses
  refine ⟨hbank₁, hbank₂, ?_⟩
  intro k access haccess
  -- both runs have a step at the place of the access
  have hk : k < accesses.length := (List.getElem?_eq_some_iff.mp haccess).1
  obtain ⟨step₁, hstep₁⟩ : ∃ step₁, ((ioMemoryAccess inherited fwd₁).run (bank, f) accesses)[k]? =
      some step₁ := ⟨_, List.getElem?_eq_getElem (by rw [Machine.run_length]; exact hk)⟩
  obtain ⟨step₂, hstep₂⟩ : ∃ step₂, ((ioMemoryAccess inherited fwd₂).run (bank, g) accesses)[k]? =
      some step₂ := ⟨_, List.getElem?_eq_getElem (by rw [Machine.run_length]; exact hk)⟩
  have h₁ := Machine.run_getElem? _ haccess hstep₁
  have h₂ := Machine.run_getElem? _ haccess hstep₂
  refine ⟨step₁, step₂, hstep₁, hstep₂, fun hrtl => ⟨?_, fun hkind => ?_⟩, ?_,
    passedOnce_of_step inherited h₁⟩
  · -- in each run the operation is as the bank's own access left it, from the same bank state
    have hsame : (step₁.map Prod.fst ConfigOutcome.result) =
        (step₂.map Prod.fst ConfigOutcome.result) := by
      have hget := congrArg (fun steps => steps[k]?) (hbank₁.trans hbank₂.symm)
      simp only [List.getElem?_map, hstep₁, hstep₂, Option.map_some] at hget
      exact Option.some.inj hget
    have hbefore : step₁.before.1 = step₂.before.1 := congrArg MachineStep.before hsame
    rw [show step₁.output = _ from congrArg Prod.snd h₁,
      show step₂.output = _ from congrArg Prod.snd h₂,
      (ioMemoryAccess_spec inherited fwd₁ _ _ access).memop,
      (ioMemoryAccess_spec inherited fwd₂ _ _ access).memop,
      ConfigAccess.answered_of_useRtl hrtl, ConfigAccess.answered_of_useRtl hrtl, hbefore]
  · exact bankReturns_of_step inherited hkind hrtl h₁
  · intro hrtl hkind
    exact readReturns_of_step inherited hkind hrtl h₁

end Runs

end SimConnect
