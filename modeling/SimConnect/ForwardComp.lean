import SimConnect.FifoRtl
import SimConnect.PciConfig

/-!
# forward_comp.py: the PCIe device in front of the relay

`add_objects` makes one `forward_pcie_main` object and six `forward_receiver` objects, for the
configuration space and the five BARs.  Whatever the processor does with them through a relay, it
sees a bank in front of objects without a state.
-/

open SimConnect.Foundation Relation

namespace SimConnect

/-! ## The objects -/

-- init_object, with the two attributes that add_objects sets
def forwardReceiver (useRtl memAccessType : Bool) : ForwarderDevice where
  dummyReturnValue := 0xfedcba9876543210
  useRtl
  memAccessType

structure ForwardComp where
  mainUseRtl : Bool
  pciConfigFwd : ForwarderDevice
  barFwd : Fin 5 → ForwarderDevice

def addObjects (useRtlMode : ℤ) : ForwardComp :=
  let useRtl := if useRtlMode = 0 then false else if useRtlMode = 1 then true else false
  { mainUseRtl := useRtl
    pciConfigFwd := forwardReceiver useRtl false
    barFwd := fun _ => forwardReceiver useRtl true }

/-! ## map_target -/

-- the transaction that a method of map_target sends to the object, and its address
def ForwardCall.transaction : ForwardCall → Transaction × UInt64
  | .read offset size => ({ isRead := true, size := .ofNat size, value := 0 }, offset)
  | .write offset size value => ({ isRead := false, size := .ofNat size, value }, offset)

-- anything but Sim_PE_No_Exception is thrown
def mapRead (x : ExceptionType × Transaction) : Option UInt64 :=
  if x.1 = .noException then some x.2.value else none

def mapWrite (x : ExceptionType × Transaction) : Option Unit :=
  if x.1 = .noException then some () else none

def ForwardCall.answer : ForwardCall → ExceptionType × Transaction → ForwardAnswer
  | .read _ _, x => .read (mapRead x)
  | .write _ _ _, x => .write (mapWrite x)

def ForwardCall.deviceAccess (call : ForwardCall) (dev : ForwarderDevice) : DeviceAccess where
  dev
  t := call.transaction.1
  addr := call.transaction.2

-- one call of pci_config_forward, carried out by issue
def serveCall (dev : ForwarderDevice) (call : ForwardCall) (m : ForwardReceiver) :
    Prog SysCall SysCall.Ret (ForwardAnswer × ForwardReceiver) :=
  issueBody (call.deviceAccess dev) m >>= fun x => .ret (call.answer x.1, x.2)

/-! ## Accesses of the processor -/

variable {A B : Type}

inductive CompRequest (A : Type)
  | config (memop : MemOp) (offset : UInt64) (aux : A)
  | bar (i : Fin 5) (t : Transaction) (addr : UInt64)

inductive CompResponse
  | config (outcome : ConfigOutcome)
  | bar (e : ExceptionType) (t : Transaction)

-- an object that gives this answer to the one call made to it
def MapTarget.answering : ForwardAnswer → MapTarget Unit
  | .read value => { read := fun _ _ _ => ((), value), write := fun _ _ _ _ => ((), none) }
  | .write done => { read := fun _ _ _ => ((), none), write := fun _ _ _ _ => ((), done) }

/-- `io_memory_access` with a forward_receiver object behind `pci_config_forward`: the call that it
makes is carried out, and the access goes on with the answer. -/
def configAccess (inherited : InheritedAccess A B) (dev : ForwarderDevice) (access : ConfigAccess A)
    (s : B × ForwardReceiver) : Prog SysCall SysCall.Ret (CompResponse × (B × ForwardReceiver)) :=
  match access.request with
  | none =>
      let res := ioMemoryAccess inherited (.answering (.read none)) (s.1, ()) access
      .ret (.config res.2, (res.1.1, s.2))
  | some call =>
      serveCall dev call s.2 >>= fun x =>
        let res := ioMemoryAccess inherited (.answering x.1) (s.1, ()) access
        .ret (.config res.2, (res.1.1, x.2))

namespace ForwardComp

variable (comp : ForwardComp) (inherited : InheritedAccess A B)

def body : CompRequest A → B × ForwardReceiver →
    Prog SysCall SysCall.Ret (CompResponse × (B × ForwardReceiver))
  | .config memop offset aux, s =>
      configAccess inherited comp.pciConfigFwd { memop, offset, aux, useRtl := comp.mainUseRtl } s
  | .bar i t addr, s =>
      issueBody { dev := comp.barFwd i, t, addr } s.2 >>= fun x =>
        .ret (.bar x.1.1 x.1.2, (s.1, x.2))

/-! ## What the processor sees -/

-- a forward_receiver object on a link to the RTL side, without the link
def deviceTarget (dev : ForwarderDevice) : MapTarget Unit where
  read := fun _ offset size =>
    ((), mapRead (deviceReturns ((ForwardCall.read offset size).deviceAccess dev)))
  write := fun _ offset size value =>
    ((), mapWrite (deviceReturns ((ForwardCall.write offset size value).deviceAccess dev)))

/-- The component as a machine that has the bank for its only state. -/
def spec : Machine B (CompRequest A) CompResponse
  | bank, .config memop offset aux =>
      let res := ioMemoryAccess inherited (deviceTarget comp.pciConfigFwd) (bank, ())
        { memop, offset, aux, useRtl := comp.mainUseRtl }
      (res.1.1, .config res.2)
  | bank, .bar i t addr =>
      let x := deviceReturns { dev := comp.barFwd i, t, addr }
      (bank, .bar x.1 x.2)

end ForwardComp

section Answers

variable (inherited : InheritedAccess A B) (bank : B) (access : ConfigAccess A)

-- an access depends on the object through the answer to its own call
theorem ioMemoryAccess_answering (fwd : MapTarget Unit) (answer : ForwardAnswer)
    (h : ∀ call, access.request = some call → (fwd.serve () (some call)).2 = some answer) :
    ioMemoryAccess inherited (.answering answer) (bank, ()) access =
      ioMemoryAccess inherited fwd (bank, ()) access := by
  cases hkind : access.memop.kind with
  | read =>
      have hrequest : access.request = some (.read access.offset access.memop.size) := by
        rw [ConfigAccess.request, hkind]
      have hanswer := h _ hrequest
      have hread : (bankAccess inherited bank access).2.memop.isRead = true := by
        rw [bankAccess_isRead, MemOp.isRead, hkind]
        rfl
      have hsize := bankAccess_size inherited bank access
      rw [← Option.some.inj hanswer]
      simp only [ioMemoryAccess, hread, hsize, if_true, MapTarget.answering]
  | write =>
      have hrequest : access.request =
          some (.write access.offset access.memop.size access.memop.valueLe) := by
        rw [ConfigAccess.request, hkind]
      have hanswer := h _ hrequest
      have hread : access.memop.isRead = false := by rw [MemOp.isRead, hkind]; rfl
      have hwrite : access.memop.isWrite = true := by rw [MemOp.isWrite, hkind]; rfl
      have hmemop := bankAccess_memop inherited bank access hread
      rw [← Option.some.inj hanswer]
      simp only [ioMemoryAccess, hmemop, hread, hwrite, if_true, Bool.false_eq_true, if_false,
        MapTarget.answering]
  | other =>
      have hread : access.memop.isRead = false := by rw [MemOp.isRead, hkind]; rfl
      have hwrite : access.memop.isWrite = false := by rw [MemOp.isWrite, hkind]; rfl
      have hmemop := bankAccess_memop inherited bank access hread
      simp only [ioMemoryAccess, hmemop, hread, hwrite, Bool.false_eq_true, if_false]

variable {access}

theorem ioMemoryAccess_unserved (dev : ForwarderDevice) (h : access.request = none) :
    ioMemoryAccess inherited (.answering (.read none)) (bank, ()) access =
      ioMemoryAccess inherited (ForwardComp.deviceTarget dev) (bank, ()) access :=
  ioMemoryAccess_answering inherited bank access _ _ fun _ hcall => by rw [h] at hcall; cases hcall

theorem ioMemoryAccess_served (dev : ForwarderDevice) {call : ForwardCall}
    (h : access.request = some call) :
    ioMemoryAccess inherited (.answering (call.answer (deviceReturns (call.deviceAccess dev))))
        (bank, ()) access =
      ioMemoryAccess inherited (ForwardComp.deviceTarget dev) (bank, ()) access := by
  apply ioMemoryAccess_answering
  intro call' hcall'
  rw [h] at hcall'
  rw [← Option.some.inj hcall']
  cases call with
  | read offset size => rfl
  | write offset size value => rfl

end Answers

/-! ## A session -/

section Session

variable {σ : Type} (L : RelayLink σ) (comp : ForwardComp) (inherited : InheritedAccess A B)

abbrev CompClient (σ A B : Type) :=
  Client SysCall SysCall.Ret (Host (LinkedRtl σ)) (B × ForwardReceiver) (CompRequest A) CompResponse

-- an access to a BAR fits the payload; an operation on the configuration space always does
def CompRequest.Fits : CompRequest A → Prop
  | .config _ _ _ => True
  | .bar _ t _ => t.size.toNat ≤ maxPayloadSize

def CompFits (σ A B : Type) :
    CompClient σ A B → ClientLabel SysCall SysCall.Ret (CompRequest A) → Prop :=
  Client.Meets (fun _ req => req.Fits) fun _ _ => True

-- a call that io_memory_access makes is of at most eight bytes
theorem request_fits {access : ConfigAccess A} {call : ForwardCall}
    (h : access.request = some call) : call.transaction.1.size.toNat ≤ maxPayloadSize := by
  have hsize : call.transaction.1.size = .ofNat access.memop.size := by
    rw [ConfigAccess.request] at h
    cases hkind : access.memop.kind with
    | read =>
        rw [hkind] at h
        cases h
        rfl
    | write =>
        rw [hkind] at h
        cases h
        rfl
    | other =>
        rw [hkind] at h
        cases h
  have hle : access.memop.size % 2 ^ 32 ≤ access.memop.size := Nat.mod_le _ _
  have hsmall : access.memop.size ≤ 8 := access.memop.small
  rw [hsize, UInt32.toNat_ofNat']
  exact (hle.trans hsmall).trans (by decide)

theorem serveCall_wp {dev : ForwarderDevice} {call : ForwardCall} (m : ForwardReceiver)
    (hs : call.transaction.1.size.toNat ≤ maxPayloadSize) {h : Host (LinkedRtl σ)}
    (hidle : h.pipes.Idle L RtlAnswer) :
    (serveCall dev call m).wp (linkWorld L) (fun h => OneOnTheWay L h.pipes)
      (fun x h' => h'.pipes.Idle L RtlAnswer ∧
        x.1 = call.answer (deviceReturns (call.deviceAccess dev))) h := by
  refine Prog.wp_bind (Prog.wp_mono ?_ (issue_linked L _ (call.deviceAccess dev) m hs hidle))
  rintro x h' ⟨hidle', hx⟩
  exact Prog.wp_ret ((idle_steady L).only _) (fun w hw => ⟨hw, by rw [hx]⟩) hidle'

theorem body_wp (req : CompRequest A) (hreq : req.Fits) (bank : B) (m : ForwardReceiver)
    {h : Host (LinkedRtl σ)} (hidle : h.pipes.Idle L RtlAnswer) :
    (comp.body inherited req (bank, m)).wp (linkWorld L) (fun h => OneOnTheWay L h.pipes)
      (fun x h' => x.1 = (comp.spec inherited bank req).2 ∧
        x.2.1 = (comp.spec inherited bank req).1 ∧ h'.pipes.Idle L RtlAnswer) h := by
  have hsteady := (idle_steady L).only fun _ _ => True
  cases req with
  | bar i t addr =>
      rw [ForwardComp.body]
      refine Prog.wp_bind (Prog.wp_mono ?_
        (issue_linked L _ ⟨comp.barFwd i, t, addr⟩ m hreq hidle))
      rintro x h' ⟨hidle', hx⟩
      refine Prog.wp_ret hsteady (fun w hw => ⟨?_, rfl, hw⟩) hidle'
      rw [hx]
      rfl
  | config memop offset aux =>
      rw [ForwardComp.body, configAccess, ForwardComp.spec]
      dsimp only
      cases hrequest : (ConfigAccess.mk memop offset aux comp.mainUseRtl).request with
      | none =>
          refine Prog.wp_ret hsteady (fun w hw => ?_) hidle
          rw [ioMemoryAccess_unserved inherited bank comp.pciConfigFwd hrequest]
          exact ⟨rfl, rfl, hw⟩
      | some call =>
          refine Prog.wp_bind (Prog.wp_mono ?_ (serveCall_wp L m (request_fits hrequest) hidle))
          rintro x h' ⟨hidle', hx⟩
          refine Prog.wp_ret hsteady (fun w hw => ?_) hidle'
          rw [hx, ioMemoryAccess_served inherited bank comp.pciConfigFwd hrequest]
          exact ⟨rfl, rfl, hw⟩

/-- Any accesses of the processor, one after another, to a component in any setting: the results are
those of the bank in front of objects without a state. -/
theorem comp_session {bank : B} {m : ForwardReceiver} {h₀ : Host (LinkedRtl σ)}
    (hidle : h₀.pipes.Idle L RtlAnswer) {s : CompClient σ A B}
    (hrun : RunsTo (Client.Step (linkPipes L).world (comp.body inherited)) (CompFits σ A B)
      ⟨(bank, m), none, h₀, []⟩ s) :
    OneOnTheWay L s.world.pipes ∧
      s.log.map Prod.snd = (comp.spec inherited).outputs bank (s.log.map Prod.fst) := by
  have hall := Client.run_machine (comp.spec inherited) (I := fun h => OneOnTheWay L h.pipes)
    (B := fun bank lib h => lib.1 = bank ∧ h.pipes.Idle L RtlAnswer) ?_ ?_ hrun rfl rfl bank
    ⟨rfl, hidle⟩
  · exact ⟨hall.1, hall.2.1⟩
  · exact fun bank lib =>
      ⟨fun w w' henv h => ⟨h.1, (idle_steady L).env w w' henv h.2⟩, fun w h => Or.inl h.2⟩
  · rintro bank ⟨bank', m⟩ h req ⟨rfl, hidle⟩ hreq
    exact body_wp L comp inherited req hreq _ m hidle

/-! ## The modes -/

-- without use_rtl an object makes no call
theorem issueBody_of_useRtl {req : DeviceAccess} (h : req.dev.useRtl = false)
    (m : ForwardReceiver) : issueBody req m = .ret (deviceReturns req, m) := by
  simp only [issueBody, issue, deviceReturns, h, Bool.false_eq_true, if_false]
  by_cases hread : req.t.isRead = true
  · rw [if_pos hread, if_pos hread]
  · rw [if_neg hread, if_neg hread]

theorem body_of_useRtl (hconfig : comp.pciConfigFwd.useRtl = false)
    (hbar : ∀ i, (comp.barFwd i).useRtl = false) (req : CompRequest A) (bank : B)
    (m : ForwardReceiver) : comp.body inherited req (bank, m) =
      .ret ((comp.spec inherited bank req).2, ((comp.spec inherited bank req).1, m)) := by
  cases req with
  | bar i t addr =>
      rw [ForwardComp.body, issueBody_of_useRtl (hbar i)]
      rfl
  | config memop offset aux =>
      rw [ForwardComp.body, configAccess, ForwardComp.spec]
      dsimp only
      cases hrequest : (ConfigAccess.mk memop offset aux comp.mainUseRtl).request with
      | none =>
          dsimp only
          rw [ioMemoryAccess_unserved inherited bank comp.pciConfigFwd hrequest]
      | some call =>
          have hcall : (call.deviceAccess comp.pciConfigFwd).dev.useRtl = false := hconfig
          dsimp only
          rw [serveCall, issueBody_of_useRtl hcall,
            ← ioMemoryAccess_served inherited bank comp.pciConfigFwd hrequest]
          rfl

/-- A read gives 0. -/
def GivesZero : CompRequest A → CompResponse → Prop
  | .config memop _ _, .config outcome => memop.isRead = true → outcome.memop.valueLe = 0
  | .bar _ t _, .bar _ t' => t.isRead = true → t'.value = 0
  | _, _ => False

theorem spec_givesZero (bank : B) (req : CompRequest A) :
    GivesZero req ((addObjects 1).spec inherited bank req).2 := by
  cases req with
  | bar i t addr =>
      intro hread
      simp only [deviceReturns, hread, if_true]
      rfl
  | config memop offset aux =>
      intro hread
      have hkind : memop.kind = .read := of_decide_eq_true hread
      have hmemop := (ioMemoryAccess_spec inherited
        (ForwardComp.deviceTarget (addObjects 1).pciConfigFwd) bank ()
        ⟨memop, offset, aux, (addObjects 1).mainUseRtl⟩).memop
      have hrequest : (ConfigAccess.mk memop offset aux (addObjects 1).mainUseRtl).request =
          some (.read offset memop.size) := by
        rw [ConfigAccess.request, hkind]
      rw [hrequest] at hmemop
      change MemOp.valueLe (ConfigOutcome.memop _) = 0
      rw [hmemop]
      apply UInt64.toNat_inj.mp
      change (MemOp.valueLe (MemOp.setValueLe _ 0)).toNat = 0
      rw [MemOp.valueLe_setValueLe]
      exact Nat.zero_mod _

theorem addObjects_of_ne_one {useRtlMode : ℤ} (h : useRtlMode ≠ 1) :
    (addObjects useRtlMode).pciConfigFwd.useRtl = false ∧
      ∀ i, ((addObjects useRtlMode).barFwd i).useRtl = false := by
  have hoff :
      (if useRtlMode = 0 then false else if useRtlMode = 1 then true else false) = false := by
    rw [if_neg h, ite_self]
  exact ⟨hoff, fun _ => hoff⟩

-- with every object off, the pipes stay as they are
theorem comp_silent (hconfig : comp.pciConfigFwd.useRtl = false)
    (hbar : ∀ i, (comp.barFwd i).useRtl = false) {bank : B} {m : ForwardReceiver}
    {h₀ : Host (LinkedRtl σ)} (hstart : h₀.pipes.History L RtlAnswer [] []) {s : CompClient σ A B}
    (hrun : RunsTo (Client.Step (linkPipes L).world (comp.body inherited)) (CompFits σ A B)
      ⟨(bank, m), none, h₀, []⟩ s) :
    s.world.pipes.History L RtlAnswer [] [] := by
  have hsteady : Steady (linkPipes L).world (fun h => h.pipes.History L RtlAnswer [] [])
      fun h => h.pipes.History L RtlAnswer [] [] :=
    ⟨fun _ _ henv hist => hist.env rtlServe_obeys henv.1, fun _ hist => hist⟩
  have hall := Client.run_machine (comp.spec inherited)
    (I := fun h => h.pipes.History L RtlAnswer [] [])
    (B := fun bank lib h => lib.1 = bank ∧ h.pipes.History L RtlAnswer [] []) ?_ ?_ hrun rfl rfl
    bank ⟨rfl, hstart⟩
  · exact hall.1
  · exact fun bank lib =>
      ⟨fun w w' henv h => ⟨h.1, hsteady.env w w' henv h.2⟩, fun w h => h.2⟩
  · rintro bank ⟨bank', m⟩ h req ⟨rfl, hist⟩ _
    rw [body_of_useRtl comp inherited hconfig hbar]
    exact Prog.wp_ret (hsteady.only _) (fun w hw => ⟨rfl, rfl, hw⟩) hist

/-- The component that forward_comp.py makes, on any link: one packet at a time, every reply in the
end, and the results of the bank in front of objects without a state.  With `use_rtl_mode` 1 every
read gives 0, and in any other mode no packet is ever sent. -/
theorem forward_comp_session (K : L.Ranked) (useRtlMode : ℤ) {bank : B} {m : ForwardReceiver}
    {h₀ : Host (LinkedRtl σ)} (hstart : h₀.pipes.History L RtlAnswer [] []) {s : CompClient σ A B}
    (hrun : RunsTo (Client.Step (linkPipes L).world ((addObjects useRtlMode).body inherited))
      (CompFits σ A B) ⟨(bank, m), none, h₀, []⟩ s) :
    OneOnTheWay L s.world.pipes ∧
      (∀ p, s.world.pipes.Waiting L RtlAnswer p →
        Within (Served.Env L rtlServe) K.Ends (K.total s.world.pipes) s.world.pipes) ∧
      s.log.map Prod.snd =
        ((addObjects useRtlMode).spec inherited).outputs bank (s.log.map Prod.fst) ∧
      if useRtlMode = 1 then ∀ x ∈ s.log, GivesZero x.1 x.2
      else s.world.pipes.History L RtlAnswer [] [] := by
  obtain ⟨hone, hlog⟩ := comp_session L (addObjects useRtlMode) inherited ⟨[], [], hstart, rfl⟩ hrun
  refine ⟨hone, fun p hwait => ?_, hlog, ?_⟩
  · exact (K.within rtlServe_obeys rtlServe_total hwait).imp fun _ hs => hs.2
  · by_cases hmode : useRtlMode = 1
    · rw [if_pos hmode]
      intro x hx
      obtain ⟨bank', hspec⟩ := Machine.outputs_mem hlog x hx
      rw [hspec, hmode]
      exact spec_givesZero inherited bank' x.1
    · rw [if_neg hmode]
      obtain ⟨hconfig, hbar⟩ := addObjects_of_ne_one hmode
      exact comp_silent L (addObjects useRtlMode) inherited hconfig hbar hstart hrun

end Session

/-! ## A run -/

-- a bank without a state that answers every read with the vendor id
def vendorBank : InheritedAccess Unit Unit := fun _ _ _ _ => ((), 0x8086, true)

def vendorRead : CompRequest Unit :=
  .config { kind := .read, data := [0, 0], small := by decide } 0 ()

theorem forward_comp_session_read :
    ∃ s : CompClient FifoState Unit Unit,
      RunsTo (Client.Step (linkPipes fifoLink).world ((addObjects 1).body vendorBank))
        (CompFits FifoState Unit Unit) ⟨((), .init), none, fifoStart, []⟩ s ∧
      ∃ x ∈ s.log, x.1 = vendorRead ∧ GivesZero x.1 x.2 := by
  have hends : (((addObjects 1).body vendorBank vendorRead ((), .init)).runWith?
      (promptLink (fun l p => fifoStep l (.hostEnqueue p)) (promptReply fifoFetch fifoAnswer))
      fifoStart).isSome = true := by
    decide +kernel
  obtain ⟨⟨⟨a, lib⟩, h'⟩, hrun⟩ := Option.isSome_iff_exists.mp hends
  have hstep : RunsTo (Client.Step (linkPipes fifoLink).world ((addObjects 1).body vendorBank))
      (CompFits FifoState Unit Unit) ⟨((), .init), none, fifoStart, []⟩
      ⟨lib, none, h', [] ++ [(vendorRead, a)]⟩ :=
    Client.request? _ (promptLink_ok fifoLink (fun _ _ _ hl => hl)
      (promptReply_steps fifoLink fifoFetch_steps fifoAnswer_steps)) .start trivial hrun
  have hsession := forward_comp_session fifoLink vendorBank fifoRanked 1
    (fifoRtlInit_history .init) hstep
  exact ⟨_, hstep, _, List.mem_singleton_self _, rfl,
    hsession.2.2.2 _ (List.mem_singleton_self _)⟩

end SimConnect
