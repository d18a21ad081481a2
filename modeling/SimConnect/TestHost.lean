import SimConnect.NetworkRtl
import SimConnect.FifoRtl
import SimConnect.ArrayBounds
import SimConnect.Foundation.VisibleCalls

/-!
# testhost.c on a relay

`main` of testhost.c sends ten requests, waits for the reply to each, and ends the simulation with
the packet number 0.  Over any relay link to the RTL side it gets the echo of each of its requests,
and after its last packet the RTL side stops.
-/

open SimConnect.Foundation Relation

namespace SimConnect

/-! ## The program -/

-- NUM_XACTIONS of testhost.c
def testhostXactions : ℕ := 10

-- the result and what cxl_relay_log_path holds afterwards
def initLog : LibM (ℤ × String) := do
  match ← sys (.getenv .cxlRelayLogPath) with
  | none =>
      sys (.strbuf .cxlRelayLogPath "./")
      return (-1, "./")
  | some p =>
      sys (.strbuf .cxlRelayLogPath p)
      sys (.strbuf .cxlRelayLogPath (p ++ "/"))
      return (0, p ++ "/")

-- *iptr = 0xfacefeed
def storeUnsigned (data : Vector UInt8 maxPayloadSize) (val : UInt32) :
    Vector UInt8 maxPayloadSize :=
  Vector.ofFn fun i => (leBytes 4 val.toNat).getD i (data.get i)

-- test_pkt in the round `i`, over what is in it
def fillTestPkt (testPkt : SimicsTransaction) (i : UInt32) : SimicsTransaction :=
  { testPkt with
    packetNumber := i + 1
    packetType := 1
    simType := 1
    r0w1 := i &&& 1
    dataSize := 4
    data := storeUnsigned testPkt.data 0xfacefeed }

/-- `simics_print_fifo_pkt_data_and_log` with `verbose` and `fp = logfp` for the packet; there is no
result where it reads beyond `hosttype` or the data. -/
def simicsPrintFifoPktDataAndLogBounded (simicsData : SimicsTransaction) (requestReplyFlag : ℕ) :
    LibM (Option ℤ) := do
  let localtime ← sys .localtime
  let lib ← get
  if AllInRange (logAccesses ⟨true, lib.logfp, localtime⟩ simicsData requestReplyFlag) then
    if !localtime then
      return some (-1)
    else
      if lib.logfp then
        logPrint
        logFlush
      return some 0
  else
    -- the printf comes before the entry of the log
    return none

/-- The rounds from `i` on, as many as the first argument says, up to a print that goes out of
range.  `test_pkt` and `tlp_data` are the two packets of the file. -/
def xactions : ℕ → UInt32 → SimicsTransaction → SimicsTransaction →
    LibM (Option (SimicsTransaction × SimicsTransaction))
  | 0, _, testPkt, tlpData => return some (testPkt, tlpData)
  | n + 1, i, testPkt, tlpData => do
      let testPkt := fillTestPkt testPkt i
      match ← simicsPrintFifoPktDataAndLogBounded testPkt 1 with
      | none => return none
      | some _ =>
          match ← enqueRequestClient testPkt with
          | none => exit
          | some _ =>
              -- the result of the dequeue is not looked at
              let reply ← dequeReplyRequestClient tlpData
              match ← simicsPrintFifoPktDataAndLogBounded reply.2 2 with
              | none => return none
              | some _ => xactions n (i + 1) testPkt reply.2

-- after the loop; the program ends with `p == NULL`
def stopSimulation (testPkt : SimicsTransaction) : LibM ℤ := do
  let p ← enqueRequestClient { testPkt with packetNumber := 0 }
  printTimestamp
  printTimestamp
  logPrint
  return if p.isNone then 1 else 0

/-- How `main` ends where it does not call exit: it returns, or an array access is out of range. -/
inductive TestEnd
  | returns (ret : ℤ)
  | strays
  deriving DecidableEq

/-- `main` of testhost.c; its `logfp` takes the place of the library's. -/
def testhostMain : LibM TestEnd := do
  let log ← initLog
  if (← openClientPipe) < 0 then
    exit
  else
    sys (.strbuf .testhostLogfile (log.2 ++ "testhost_log.txt"))
    let fp ← sys (.fopen (log.2 ++ "testhost_log.txt"))
    modify fun lib => { lib with logfp := fp }
    if !fp then
      return .returns (-1)
    else
      match ← xactions testhostXactions 0 .zero .zero with
      | none => return .strays
      | some pkts => return .returns (← stopSimulation pkts.1)

/-! ## What it sends and gets -/

def testPacket (i : ℕ) : SimicsTransaction := fillTestPkt .zero (UInt32.ofNat i)

def stopPacket : SimicsTransaction :=
  { testPacket (testhostXactions - 1) with packetNumber := 0 }

def testPackets : List SimicsTransaction :=
  (List.range testhostXactions).map testPacket ++ [stopPacket]

-- the RTL side gives each request back
def testReplies : List SimicsTransaction :=
  (List.range testhostXactions).map fun i => dpiResponseData (testPacket i)

theorem storeUnsigned_getElem (data : Vector UInt8 maxPayloadSize) (val : UInt32) {i : ℕ}
    (hi : i < maxPayloadSize) :
    (storeUnsigned data val)[i] = (leBytes 4 val.toNat).getD i data[i] := by
  rw [storeUnsigned, Vector.getElem_ofFn]
  rfl

theorem storeUnsigned_twice (data : Vector UInt8 maxPayloadSize) (val val' : UInt32) :
    storeUnsigned (storeUnsigned data val) val' = storeUnsigned data val' := by
  have hlen : ∀ v : UInt32, (leBytes 4 v.toNat).length = 4 := fun v => leBytes_length _ _
  apply Vector.ext
  intro i hi
  rw [storeUnsigned_getElem, storeUnsigned_getElem, storeUnsigned_getElem]
  by_cases h4 : i < 4
  · rw [List.getD_eq_getElem _ _ (by rwa [hlen]), List.getD_eq_getElem _ _ (by rwa [hlen])]
  · have hge : 4 ≤ i := Nat.le_of_not_lt h4
    rw [List.getD_eq_default _ _ (by rwa [hlen]), List.getD_eq_default _ _ (by rwa [hlen]),
      List.getD_eq_default _ _ (by rwa [hlen])]

-- each round writes the same members of the same packet
theorem fillTestPkt_twice (testPkt : SimicsTransaction) (i j : UInt32) :
    fillTestPkt (fillTestPkt testPkt i) j = fillTestPkt testPkt j := by
  simp only [fillTestPkt, storeUnsigned_twice]

theorem fillTestPkt_testPacket (i : ℕ) (j : UInt32) :
    fillTestPkt (testPacket i) j = fillTestPkt .zero j := fillTestPkt_twice _ _ _

/-! ## Its prints -/

-- a request of testhost and its echo
theorem testPacket_safeToPrint (i flag : ℕ) : SafeToPrint (testPacket i) flag :=
  ⟨show (1 : UInt32).toNat < 4 by decide, fun _ => show (4 : UInt32).toNat ≤ 256 by decide⟩

theorem testReply_safeToPrint (i flag : ℕ) :
    SafeToPrint (dpiResponseData (testPacket i)) flag :=
  ⟨(testPacket_safeToPrint i flag).1, fun _ => show (4 : UInt32).toNat ≤ 256 by decide⟩

-- in range it prints what the access path prints
theorem printBounded_bind {α : Type} {p : SimicsTransaction} {flag : ℕ}
    (h : SafeToPrint p flag) (f : Option ℤ → LibM α) :
    simicsPrintFifoPktDataAndLogBounded p flag >>= f =
      simicsPrintFifoPktDataAndLog >>= fun ret => f (some ret) := by
  have hrange : ∀ dest, AllInRange (logAccesses dest p flag) := fun dest =>
    (logAccesses_inRange_iff dest p flag).mpr fun _ => h
  simp only [simicsPrintFifoPktDataAndLogBounded, simicsPrintFifoPktDataAndLog, if_pos (hrange _)]
  funext lib
  obtain ⟨_, _, _, logfp, _, _⟩ := lib
  refine congrArg (Prog.call SysCall.localtime) (funext fun localtime => ?_)
  cases localtime with
  | false => rfl
  | true =>
      cases logfp with
      | false => rfl
      | true => rfl

/-! ## A session -/

section Session

variable {σ : Type} (L : RelayLink σ)

-- the first `i` packets are written and the first `j` replies read
def Exchanged (i j : ℕ) (s : LinkedRtl σ) : Prop :=
  s.History L RtlAnswer (testPackets.take i) (testReplies.take j)

-- the next packet may be written, or the last one written has its reply on the way
def InTurn (K : L.Ranked) (s : LinkedRtl σ) : Prop :=
  ∃ j ≤ testhostXactions, Exchanged L j j s ∨
    Exchanged L (j + 1) j s ∧ Within (Served.Env L rtlServe) K.Ends (K.total s) s

/-- How `main` ends: nothing sent, or every reply read and the RTL side about to stop. -/
def TestEnds (K : L.Ranked) (e : TestEnd) (s : LinkedRtl σ) : Prop :=
  (e = .returns (-1) ∧ Exchanged L 0 0 s) ∨
    e = .returns 0 ∧ Exchanged L (testhostXactions + 1) testhostXactions s ∧
      Within (Served.Env L rtlServe) (fun s => s.server = .stopped ∨ K.down s.link) (K.total s) s

variable {L}

theorem testPackets_getElem? {i : ℕ} (hi : i < testhostXactions) :
    testPackets[i]? = some (testPacket i) := by
  have hlen : i < ((List.range testhostXactions).map testPacket).length := by
    rwa [List.length_map, List.length_range]
  rw [testPackets, List.getElem?_append_left hlen, List.getElem?_map, List.getElem?_range hi,
    Option.map_some]

theorem testReplies_getElem? {i : ℕ} (hi : i < testhostXactions) :
    testReplies[i]? = some (dpiResponseData (testPacket i)) := by
  rw [testReplies, List.getElem?_map, List.getElem?_range hi, Option.map_some]

theorem testReplies_length : testReplies.length = testhostXactions := by
  rw [testReplies, List.length_map, List.length_range]

theorem Exchanged.put {i : ℕ} {p : SimicsTransaction} {s : LinkedRtl σ} {l : σ}
    (h : Exchanged L i i s) (hp : testPackets[i]? = some p) (hstep : L.clientPut s.link p l) :
    Exchanged L (i + 1) i { s with link := l } := by
  rw [Exchanged, List.take_add_one, hp]
  exact Served.History.put h hstep

-- the reply that is read is the echo
theorem Exchanged.get {i : ℕ} {b : SimicsTransaction} {s : LinkedRtl σ} {l : σ}
    (h : Exchanged L (i + 1) i s) (hi : i < testhostXactions) (hstep : L.clientGet s.link b l) :
    b = dpiResponseData (testPacket i) ∧ Exchanged L (i + 1) (i + 1) { s with link := l } := by
  obtain ⟨⟨a, ha, hR⟩, hist⟩ := Served.History.get h hstep
  have hlen : (testReplies.take i).length = i := by
    rw [List.length_take, testReplies_length, Nat.min_eq_left hi.le]
  rw [hlen, List.getElem?_take_of_lt (Nat.lt_succ_self i), testPackets_getElem? hi] at ha
  have hb : b = dpiResponseData (testPacket i) := by
    rw [Option.some.inj ha]
    exact hR.echo (by rw [← Option.some.inj ha]; exact show (4 : ℕ) ≤ 8 by decide)
  refine ⟨hb, ?_⟩
  rw [Exchanged, List.take_add_one (l := testReplies), testReplies_getElem? hi, ← hb]
  exact hist

theorem Exchanged.env {i j : ℕ} {s s' : LinkedRtl σ} (h : Exchanged L i j s)
    (hstep : Served.Env L rtlServe s s') : Exchanged L i j s' :=
  Served.History.env rtlServe_obeys h hstep

theorem testPackets_last : testPackets[testhostXactions]? = some stopPacket := by
  have hlen : ((List.range testhostXactions).map testPacket).length = testhostXactions := by
    rw [List.length_map, List.length_range]
  rw [testPackets, List.getElem?_append_right (Nat.le_of_eq hlen), hlen, Nat.sub_self]
  rfl

theorem testPackets_length : testPackets.length = testhostXactions + 1 := by
  rw [testPackets, List.length_append, List.length_map, List.length_range]
  rfl

theorem Exchanged.waiting {j : ℕ} {p : SimicsTransaction} {s : LinkedRtl σ}
    (h : Exchanged L (j + 1) j s) (hj : j ≤ testhostXactions) (hp : testPackets[j]? = some p) :
    s.Waiting L RtlAnswer p := by
  have hput : (testPackets.take (j + 1)).length = j + 1 := by
    rw [List.length_take, testPackets_length, Nat.min_eq_left (Nat.succ_le_succ hj)]
  have hgot : (testReplies.take j).length = j := by
    rw [List.length_take, testReplies_length, Nat.min_eq_left hj]
  refine ⟨_, _, h, by rw [hput, hgot], ?_⟩
  rw [hgot, List.getElem?_take_of_lt (Nat.lt_succ_self j), hp]

theorem exists_testPacket {j : ℕ} (hj : j ≤ testhostXactions) : ∃ p, testPackets[j]? = some p := by
  have hlt : j < testPackets.length := by
    rw [testPackets_length]
    exact Nat.lt_succ_of_le hj
  exact ⟨_, List.getElem?_eq_getElem hlt⟩

theorem Exchanged.inTurn {K : L.Ranked} {j : ℕ} {s : LinkedRtl σ} (hj : j ≤ testhostXactions)
    (h : Exchanged L j j s ∨ Exchanged L (j + 1) j s) : InTurn L K s := by
  rcases h with h | h
  · exact ⟨j, hj, Or.inl h⟩
  · obtain ⟨p, hp⟩ := exists_testPacket hj
    have hwithin := K.within rtlServe_obeys rtlServe_total (h.waiting hj hp)
    exact ⟨j, hj, Or.inr ⟨h, hwithin.imp fun _ hs => hs.2⟩⟩

-- the packet number 0 has no reply
theorem Exchanged.stops (K : L.Ranked) {s : LinkedRtl σ}
    (h : Exchanged L (testhostXactions + 1) testhostXactions s) :
    Within (Served.Env L rtlServe) (fun s => s.server = .stopped ∨ K.down s.link) (K.total s)
      s := by
  have hwait := h.waiting (Nat.le_refl _) testPackets_last
  refine (K.within rtlServe_obeys rtlServe_total hwait).imp fun s' hs => ?_
  obtain ⟨hwait', ⟨b, l, hget⟩ | hstopped | hdown⟩ := hs
  · have hpos := (hwait'.get hget).1.1
    exact absurd hpos (by decide)
  · exact Or.inl hstopped
  · exact Or.inr hdown

/-! ## The rounds -/

section Rounds

variable (K : L.Ranked) {α : Type}

-- the descriptors that open_client_pipe has left in the library
def Opened (lib : DeviceLib) (fds : ℤ → Option PipeName) : Prop :=
  fds lib.requestClientPipe = some .requestClient ∧ fds lib.replyClientPipe = some .replyClient

theorem Opened.agrees {lib lib' : DeviceLib} {fds : ℤ → Option PipeName} (h : Opened lib fds)
    (hlib : lib.Agrees lib') : Opened lib' fds := by
  rw [Opened, hlib.2.1, hlib.2.2]
  exact h

-- the stage after `i` writes and `j` reads with the pipes of `lib` open
def AtStage (L : RelayLink σ) (lib : DeviceLib) (i j : ℕ) (h : Host (LinkedRtl σ)) : Prop :=
  Opened lib h.fds ∧ Exchanged L i j h.pipes

theorem atStage_indifferent {F : (ℤ → Option PipeName) → Prop} {i j : ℕ}
    (hj : j ≤ testhostXactions) (hi : i = j ∨ i = j + 1) :
    Indifferent (linkWorld L) (fun h => InTurn L K h.pipes)
      (fun h => F h.fds ∧ Exchanged L i j h.pipes) := by
  apply indifferent_of_env
  · exact fun _ _ hstep h => h.env hstep
  · intro s h
    apply Exchanged.inTurn hj
    rcases hi with rfl | rfl
    · exact Or.inl h
    · exact Or.inr h

theorem enqueRequestClient_atStage {i : ℕ} {p : SimicsTransaction} {lib : DeviceLib}
    {f : Option SimicsTransaction → LibM α} {Q : α → DeviceLib → Host (LinkedRtl σ) → Prop}
    {h : Host (LinkedRtl σ)} (hi : i ≤ testhostXactions) (hp : testPackets[i]? = some p)
    (hh : AtStage L lib i i h)
    (hf : ∀ h, AtStage L lib (i + 1) i h →
      (f (some p)).wp (linkWorld L) (fun h => InTurn L K h.pipes) Q lib h) :
    (enqueRequestClient p >>= f).wp (linkWorld L) (fun h => InTurn L K h.pipes) Q lib h := by
  have hind := atStage_indifferent K (F := Opened lib) hi (Or.inl rfl)
  have hind' := atStage_indifferent K (F := Opened lib) hi (Or.inr rfl)
  refine LibM.wp_bind (LibM.wp_get (LibM.wp_sys_bind hind.toSteady hh fun h r h' hh hcall => ?_))
  obtain ⟨_, hcall⟩ := hcall
  simp only [PipeSystem.world, PipeSystem.call, hh.1.1] at hcall
  obtain ⟨⟨_, hr, l, hput, hs⟩, hfds⟩ := hcall
  have hnext : AtStage L lib (i + 1) i h' := by
    rw [AtStage, hfds, hs]
    exact ⟨hh.1, hh.2.put hp hput⟩
  refine LibM.wp_pure hind'.toSteady (fun h hh => ?_) hnext
  rw [hr]
  exact hf h hh

theorem dequeReplyRequestClient_atStage {i : ℕ} {rd : SimicsTransaction} {lib : DeviceLib}
    {f : ℤ × SimicsTransaction → LibM α} {Q : α → DeviceLib → Host (LinkedRtl σ) → Prop}
    {h : Host (LinkedRtl σ)} (hi : i < testhostXactions) (hh : AtStage L lib (i + 1) i h)
    (hf : ∀ ret h, AtStage L lib (i + 1) (i + 1) h →
      (f (ret, dpiResponseData (testPacket i))).wp (linkWorld L) (fun h => InTurn L K h.pipes) Q
        lib h) :
    (dequeReplyRequestClient rd >>= f).wp (linkWorld L) (fun h => InTurn L K h.pipes) Q lib h := by
  have hind := atStage_indifferent K (F := Opened lib) hi.le (Or.inr rfl)
  have hind' := atStage_indifferent K (F := Opened lib) (i := i + 1) hi (Or.inl rfl)
  refine LibM.wp_bind (LibM.wp_get (LibM.wp_sys_bind hind.toSteady hh fun h r h' hh hcall => ?_))
  obtain ⟨_, hcall⟩ := hcall
  simp only [PipeSystem.world, PipeSystem.call, hh.1.2] at hcall
  obtain ⟨⟨_, b, l, hr, hget, hs⟩, hfds⟩ := hcall
  obtain ⟨hb, hgot⟩ := hh.2.get hi hget
  have hnext : AtStage L lib (i + 1) (i + 1) h' := by
    rw [AtStage, hfds, hs]
    exact ⟨hh.1, hgot⟩
  have hstored : simicsDequeReplyRequestClientTlp r rd =
      (r.ret, dpiResponseData (testPacket i)) := by
    change (r.ret, r.store rd) = _
    rw [hr, ReadResult.store_packet, hb]
  refine LibM.wp_pure hind'.toSteady (fun h hh => ?_) hnext
  rw [hstored]
  exact hf _ h hh

theorem AtStage.agrees {lib lib' : DeviceLib} {i j : ℕ} {h : Host (LinkedRtl σ)}
    (hh : AtStage L lib i j h) (hlib : lib.Agrees lib') : AtStage L lib' i j h :=
  ⟨hh.1.agrees hlib, hh.2⟩

/-- The rounds that are left, from the `i`-th on. -/
theorem xactions_wp {n i : ℕ} (hn : i + n = testhostXactions) (testPkt : SimicsTransaction)
    (hpkt : ∀ j, fillTestPkt testPkt j = fillTestPkt .zero j)
    (hlast : n = 0 → testPkt = testPacket (testhostXactions - 1)) (tlpData : SimicsTransaction)
    {lib : DeviceLib} {h : Host (LinkedRtl σ)} (hh : AtStage L lib i i h) :
    (xactions n (UInt32.ofNat i) testPkt tlpData).wp (linkWorld L) (fun h => InTurn L K h.pipes)
      (fun x lib' h' => (∃ pkts, x = some pkts ∧ pkts.1 = testPacket (testhostXactions - 1)) ∧
        AtStage L lib' testhostXactions testhostXactions h') lib h := by
  induction n generalizing i testPkt tlpData lib h with
  | zero =>
      have hi : i = testhostXactions := hn
      rw [hi] at hh
      have hind := atStage_indifferent K (L := L) (F := Opened lib) (Nat.le_refl _) (Or.inl rfl)
      exact LibM.wp_pure hind.toSteady (fun h hh => ⟨⟨_, rfl, hlast rfl⟩, hh⟩) hh
  | succ n ih =>
      have hi : i < testhostXactions := by omega
      have hi' : i + 1 ≤ testhostXactions := hi
      have hind := atStage_indifferent K (L := L) (F := Opened lib) hi.le (Or.inl rfl)
      rw [xactions, hpkt, ← testPacket, printBounded_bind (testPacket_safeToPrint i 1)]
      refine LibM.wp_quiet simicsPrintFifoPktDataAndLog_logOnly.quiet hind hh
        fun _ lib₁ h₁ hlib₁ hh₁ => ?_
      refine enqueRequestClient_atStage K hi.le (testPackets_getElem? hi)
        (AtStage.agrees hh₁ hlib₁) fun h₂ hh₂ => ?_
      refine dequeReplyRequestClient_atStage K hi hh₂ fun ret h₃ hh₃ => ?_
      rw [printBounded_bind (testReply_safeToPrint i 2)]
      have hind' := atStage_indifferent K (L := L) (F := Opened lib₁) hi' (Or.inl rfl)
      refine LibM.wp_quiet simicsPrintFifoPktDataAndLog_logOnly.quiet hind' hh₃
        fun _ lib₄ h₄ hlib₄ hh₄ => ?_
      have hnext : UInt32.ofNat i + 1 = UInt32.ofNat (i + 1) := (UInt32.ofNat_add i 1).symm
      rw [hnext]
      apply ih
      · omega
      · exact fun j => fillTestPkt_twice _ _ _
      · intro hn0
        rw [show testhostXactions - 1 = i by omega]
      · exact AtStage.agrees hh₄ hlib₄

theorem stopSimulation_wp {f : ℤ → LibM α} {Q : α → DeviceLib → Host (LinkedRtl σ) → Prop}
    {lib : DeviceLib} {h : Host (LinkedRtl σ)}
    (hh : AtStage L lib testhostXactions testhostXactions h)
    (hf : ∀ lib h, AtStage L lib (testhostXactions + 1) testhostXactions h →
      (f 0).wp (linkWorld L) (fun h => InTurn L K h.pipes) Q lib h) :
    (stopSimulation (testPacket (testhostXactions - 1)) >>= f).wp (linkWorld L)
      (fun h => InTurn L K h.pipes) Q lib h := by
  rw [stopSimulation, bind_assoc]
  refine enqueRequestClient_atStage K (Nat.le_refl _) testPackets_last hh fun h₁ hh₁ => ?_
  have hind := fun lib => atStage_indifferent K (L := L) (F := Opened lib)
    (Nat.le_refl testhostXactions) (Or.inr rfl)
  rw [bind_assoc]
  refine LibM.wp_quiet printTimestamp_logOnly.quiet (hind lib) hh₁ fun _ lib₂ h₂ hlib₂ hh₂ => ?_
  have hh₂ := AtStage.agrees hh₂ hlib₂
  rw [bind_assoc]
  refine LibM.wp_quiet printTimestamp_logOnly.quiet (hind lib₂) hh₂ fun _ lib₃ h₃ hlib₃ hh₃ => ?_
  have hh₃ := AtStage.agrees hh₃ hlib₃
  rw [bind_assoc]
  refine LibM.wp_quiet logPrint_logOnly.quiet (hind lib₃) hh₃ fun _ lib₄ h₄ hlib₄ hh₄ => ?_
  rw [pure_bind]
  exact hf lib₄ h₄ (AtStage.agrees hh₄ hlib₄)

theorem initLog_logOnly : initLog.LogOnly := by
  apply LibM.LogOnly.bind (.sys rfl)
  intro env
  cases env with
  | none => exact .bind (.sys rfl) fun _ => .pure _
  | some p => exact .bind (.sys rfl) fun _ => .bind (.sys rfl) fun _ => .pure _

-- open_client_pipe is the one of the device library
def testhostPlan : PipePlan (linkPipes L) (fun _ _ => True) (InTurn L K) (testPacket 0) where
  idle := Exchanged L 0 0
  sent := Exchanged L 1 0
  done := fun _ => Exchanged L 1 1
  idle_env := fun _ _ hstep h => h.env hstep
  sent_env := fun _ _ hstep h => h.env hstep
  done_env := fun _ _ _ hstep h => h.env hstep
  idle_inv := fun _ h => Exchanged.inTurn (Nat.zero_le _) (Or.inl h)
  sent_inv := fun _ h => Exchanged.inTurn (Nat.zero_le _) (Or.inr h)
  done_inv := fun _ _ h => Exchanged.inTurn (by decide) (Or.inl h)
  write := by
    rintro s _ r s' hs _ ⟨_, _, l, hput, rfl⟩
    exact hs.put (testPackets_getElem? (by decide)) hput
  read := by
    rintro s r s' hs ⟨_, b, l, _, hget, rfl⟩
    exact (hs.get (by decide) hget).2

end Rounds

/-- `main` of testhost.c on any link, from empty pipes: at every moment its packets go out in order
and one at a time, each reply is the echo of its request, and once it has sent the last packet the
RTL side comes to its end. -/
theorem testhost_session (K : L.Ranked) (lib : DeviceLib) {h : Host (LinkedRtl σ)}
    (hstart : h.pipes.History L RtlAnswer [] []) :
    testhostMain.wp (linkPipes L).world (fun h => InTurn L K h.pipes)
      (fun e _ h' => TestEnds L K e h'.pipes) lib h := by
  have hidle := atStage_indifferent K (L := L) (F := fun _ => True) (Nat.zero_le _)
    (Or.inl (rfl : 0 = 0))
  have hmain : testhostMain.wp (linkWorld L) (fun h => InTurn L K h.pipes)
      (fun e _ h' => TestEnds L K e h'.pipes) lib h := by
    rw [testhostMain]
    refine LibM.wp_quiet initLog_logOnly.quiet hidle ⟨trivial, hstart⟩ fun log lib₁ h₁ _ hh₁ => ?_
    refine LibM.wp_bind (LibM.wp_mono (fun ret lib₂ h₂ hopen => ?_)
      (openClientPipe_wp (testhostPlan K).toAccessPlan lib₁ hh₁))
    by_cases hret : ret < 0
    · rw [if_pos hret] at hopen ⊢
      exact Prog.wp_halt hidle.toSteady hopen.2.2
    · rw [if_neg hret] at hopen ⊢
      have hopened : AtStage L lib₂ 0 0 h₂ := hopen.2
      have hind := fun lib => atStage_indifferent K (L := L) (F := Opened lib) (Nat.zero_le _)
        (Or.inl (rfl : 0 = 0))
      refine LibM.wp_quiet (.sys trivial) (hind lib₂) hopened fun _ lib₃ h₃ hlib₃ hh₃ => ?_
      have hopened₃ : AtStage L lib₃ 0 0 h₃ := AtStage.agrees hh₃ hlib₃
      refine LibM.wp_sys_bind (hind lib₃).toSteady hopened₃ fun w fp h₄ hw hfopen => ?_
      have hh₄ : AtStage L lib₃ 0 0 h₄ := (hind lib₃).quiet w _ fp h₄ trivial hfopen hw
      refine LibM.wp_modify ?_
      -- the log has nothing to do with the descriptors
      have hfp : lib₃.Agrees { lib₃ with logfp := fp } := ⟨rfl, rfl, rfl⟩
      cases fp with
      | false =>
          exact LibM.wp_pure (hind lib₃).toSteady (fun _ hh => Or.inl ⟨rfl, hh.2⟩) hh₄
      | true =>
          have hrounds := xactions_wp K (i := 0) (Nat.zero_add testhostXactions)
            .zero (fun _ => rfl) (fun hn => absurd hn (by decide)) .zero
            (hh₄.agrees hfp)
          refine LibM.wp_bind (LibM.wp_mono ?_ hrounds)
          rintro x lib₅ h₅ ⟨⟨pkts, hx, hlast⟩, hh₅⟩
          rw [hx]
          dsimp only
          rw [hlast]
          apply stopSimulation_wp K hh₅
          intro lib₆ h₆ hh₆
          have hind₆ := atStage_indifferent K (L := L) (F := Opened lib₆)
            (Nat.le_refl testhostXactions) (Or.inr rfl)
          exact LibM.wp_pure hind₆.toSteady
            (fun h hh => Or.inr ⟨rfl, hh.2, hh.2.stops K⟩) hh₆
  exact Prog.wp_of_only hmain

end Session

/-! ## A run -/

-- main in FIFO mode, to its end
def testhostRun : Option ((TestEnd × DeviceLib) × Host (LinkedRtl FifoState)) :=
  (testhostMain.run .init).runWith?
    (promptLink (fun l p => fifoStep l (.hostEnqueue p)) (promptReply fifoFetch fifoAnswer))
    fifoStart

theorem testhost_session_fifo : ∃ x, testhostRun = some x ∧ x.1.1 = .returns 0 ∧
    Exchanged fifoLink (testhostXactions + 1) testhostXactions x.2.pipes ∧
      Within (Served.Env fifoLink rtlServe)
        (fun s => s.server = .stopped ∨ s.link.accessAt = .exited)
        (fifoRanked.total x.2.pipes) x.2.pipes := by
  have hends : testhostRun.map (fun x => x.1.1) = some (.returns 0) := by decide +kernel
  obtain ⟨x, hrun, hret⟩ := Option.map_eq_some_iff.mp hends
  have hcalls := promptLink_ok fifoLink (fun _ _ _ hl => hl)
    (promptReply_steps fifoLink fifoFetch_steps fifoAnswer_steps)
  have hsession := testhost_session fifoRanked .init (h := fifoStart) (fifoRtlInit_history .init)
  have hlast := Prog.wp_runWith? (fun h c x hx => (hcalls h c x hx).2) hsession hrun
  dsimp only at hlast
  rw [hret] at hlast
  rcases hlast with ⟨hfailed, _⟩ | ⟨_, hall, hstops⟩
  · exact absurd hfailed (by decide)
  · exact ⟨x, hrun, hret, hall, hstops⟩

end SimConnect
