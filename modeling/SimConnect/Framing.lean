import SimConnect.Comm
import SimConnect.Packet

/-!
# Packets on a TCP connection

The two receive loops, `cxl_tcp_server_thread` and `cxl_relay_client_thread`, take one `recv` to be
one packet: any other count closes the connection.  What a sender puts out is therefore received
again exactly when every run of bytes that the network delivers is cut at packet boundaries.
-/

open SimConnect.Foundation

namespace SimConnect

/-! ## The receive loops -/

-- one connection as its receive loop leaves it
structure ReceiveRun where
  handed : List SimicsTransaction
  closedOn : ℕ
  unread : TcpStream

/-- The receive loop of one connection; `simicsData` is the static packet that `CXL_Recv` fills and
`valid` the check made before the packet is handed on.  `closedOn` is the count that ended it. -/
def receiveLoop (valid : SimicsTransaction → Bool) (conn : TcpStream)
    (simicsData : SimicsTransaction) : ReceiveRun :=
  if _h : (cxlRecv false conn simicsPktSize waitForever).1.length = simicsPktSize then
    let pkt := simicsData.overlay (cxlRecv false conn simicsPktSize waitForever).1
    let conn' := (cxlRecv false conn simicsPktSize waitForever).2
    if valid pkt then
      let run := receiveLoop valid conn' pkt
      { run with handed := pkt :: run.handed }
    else
      { handed := [], closedOn := simicsPktSize, unread := conn' }
  else
    { handed := []
      closedOn := (cxlRecv false conn simicsPktSize waitForever).1.length
      unread := (cxlRecv false conn simicsPktSize waitForever).2 }
termination_by conn.bytes.length
decreasing_by
  rw [cxlRecv_waitForever] at _h ⊢
  have hb := congrArg List.length (conn.recv_bytes simicsPktSize)
  rw [List.length_append, _h] at hb
  change 288 + _ = _ at hb
  omega

-- cxl_tcp_server_thread hands every full packet to DumpForSystemVerilogFifoInPut
def serverReceive : TcpStream → SimicsTransaction → ReceiveRun :=
  receiveLoop fun _ => true

def simicsValidateReceive (_ : SimicsTransaction) : ℤ := 1

-- cxl_relay_client_thread checks the packet before simics_enque_reply_client_tlp
def clientReceive : TcpStream → SimicsTransaction → ReceiveRun :=
  receiveLoop fun p => !decide (simicsValidateReceive p ≤ 0)

theorem clientReceive_eq : clientReceive = serverReceive := rfl

section ReceiveLoop

variable {conn : TcpStream} (simicsData : SimicsTransaction)

theorem serverReceive_packet {p : SimicsTransaction}
    (h : (conn.recv simicsPktSize).1 = p.image) :
    serverReceive conn simicsData =
      { serverReceive (conn.recv simicsPktSize).2 p with
        handed := p :: (serverReceive (conn.recv simicsPktSize).2 p).handed } := by
  have hl : (conn.recv simicsPktSize).1.length = simicsPktSize := by
    rw [h, p.image_length]
  rw [serverReceive, receiveLoop]
  simp only [cxlRecv_waitForever]
  rw [dif_pos hl, h, SimicsTransaction.overlay_image, if_true]

theorem serverReceive_close (h : (conn.recv simicsPktSize).1.length ≠ simicsPktSize) :
    serverReceive conn simicsData =
      { handed := []
        closedOn := (conn.recv simicsPktSize).1.length
        unread := (conn.recv simicsPktSize).2 } := by
  rw [serverReceive, receiveLoop]
  simp only [cxlRecv_waitForever]
  rw [dif_neg h]

end ReceiveLoop

/-! ## Cuts at packet boundaries -/

-- every run of bytes that a recv can find is a number of whole packets
def TcpStream.CutAtPackets (s : TcpStream) : Prop :=
  ∀ seg ∈ s.segments, simicsPktSize ∣ seg.length

-- the connection is closed on the 0 that recv gives at the end of the stream, nothing left behind
def ReceiveRun.AtEnd (r : ReceiveRun) : Prop :=
  r.closedOn = 0 ∧ r.unread.bytes = []

namespace TcpStream

variable (s : TcpStream)

theorem segments_of_bytes_nil (h : s.bytes = []) : s.segments = [] := by
  obtain ⟨_ | ⟨seg, rest⟩, hne⟩ := s
  · rfl
  · have hseg := hne seg (List.mem_cons_self)
    rw [bytes, List.flatten_cons] at h
    exact absurd (List.append_eq_nil_iff.mp h).1 hseg

-- a recv that is not filled comes from a first segment that is too short for a packet
theorem not_cutAtPackets_of_recv (hs : s.bytes ≠ [])
    (h : (s.recv simicsPktSize).1.length ≠ simicsPktSize) :
    (s.recv simicsPktSize).1 ≠ [] ∧ ¬ s.CutAtPackets := by
  obtain ⟨_ | ⟨seg, rest⟩, hne⟩ := s
  · exact absurd rfl hs
  · have hseg : seg ≠ [] := hne seg (List.mem_cons_self)
    have hpos : 0 < seg.length := List.length_pos_iff.mpr hseg
    simp only [recv] at h ⊢
    split at h
    · rename_i hlt
      rw [List.length_take, Nat.min_eq_left hlt.le] at h
      exact absurd rfl h
    · rename_i hle
      rw [dif_neg hle]
      refine ⟨hseg, fun hcut => ?_⟩
      have hdvd := Nat.le_of_dvd hpos (hcut seg (List.mem_cons_self))
      change seg.length ≠ simicsPktSize at h
      omega

-- taking one packet off the front moves no other boundary
theorem recv_cutAtPackets (h : (s.recv simicsPktSize).1.length = simicsPktSize) :
    (s.recv simicsPktSize).2.CutAtPackets ↔ s.CutAtPackets := by
  obtain ⟨_ | ⟨seg, rest⟩, hne⟩ := s
  · change 0 = 288 at h
    omega
  · simp only [recv] at h ⊢
    split at h
    · rename_i hlt
      rw [dif_pos hlt]
      simp only [CutAtPackets, List.forall_mem_cons, List.length_drop]
      rw [Nat.dvd_sub_self_right, or_iff_left (by omega)]
    · rename_i hle
      rw [dif_neg hle]
      have hseg : seg.length = simicsPktSize := h
      simp only [CutAtPackets, List.forall_mem_cons, hseg, dvd_refl, true_and]

end TcpStream

theorem serverReceive_delivers_iff (ps : List SimicsTransaction) (conn : TcpStream)
    (simicsData : SimicsTransaction) (hconn : conn.bytes = packetBytes ps) :
    ((serverReceive conn simicsData).handed = ps ∧ (serverReceive conn simicsData).AtEnd) ↔
      conn.CutAtPackets := by
  induction ps generalizing conn simicsData with
  | nil =>
      have hsegs : conn.segments = [] := conn.segments_of_bytes_nil hconn
      have hrecv := conn.recv_bytes simicsPktSize
      rw [hconn, packetBytes_nil] at hrecv
      obtain ⟨hgot, hleft⟩ := List.append_eq_nil_iff.mp hrecv
      rw [serverReceive_close simicsData (by rw [hgot]; decide)]
      have hcut : conn.CutAtPackets := by
        intro seg hmem
        rw [hsegs] at hmem
        exact absurd hmem List.not_mem_nil
      exact iff_of_true ⟨rfl, by rw [hgot]; rfl, hleft⟩ hcut
  | cons p ps ih =>
      have hrecv := conn.recv_bytes simicsPktSize
      rw [hconn, packetBytes_cons] at hrecv
      by_cases hl : (conn.recv simicsPktSize).1.length = simicsPktSize
      · -- a full recv is exactly the first packet
        obtain ⟨hgot, hleft⟩ := List.append_inj hrecv (by rw [hl, p.image_length])
        rw [serverReceive_packet simicsData hgot, ← conn.recv_cutAtPackets hl,
          ← ih (conn.recv simicsPktSize).2 p hleft]
        simp only [List.cons.injEq, true_and, ReceiveRun.AtEnd]
      · have hne : conn.bytes ≠ [] := by
          rw [hconn, packetBytes_cons]
          exact fun h => p.image_ne_nil (List.append_eq_nil_iff.mp h).1
        obtain ⟨_, hcut⟩ := conn.not_cutAtPackets_of_recv hne hl
        rw [serverReceive_close simicsData hl]
        exact iff_of_false (fun h => absurd h.1 (by simp)) hcut

/-! ## From CXL_Send to the receive loops -/

/-- One connection's sends in order: the packet of each `CXL_Send` and the results its `send` calls
get. -/
abbrev Sends := List (SimicsTransaction × (ℕ → SendOutcome))

-- the bytes that the sends put on the connection
def wireOf (sends : Sends) : List UInt8 :=
  sends.flatMap fun s => (cxlSend s.2 s.1.image).accepted

theorem wireOf_eq_packetBytes {sends : Sends} (h : ∀ s ∈ sends, (cxlSend s.2 s.1.image).ret = 1) :
    wireOf sends = packetBytes (sends.map Prod.fst) := by
  induction sends with
  | nil => rfl
  | cons s sends ih =>
      have hs := cxlSend_accepted_of_ret s.2 s.1.image (h s (List.mem_cons_self))
      have hrest := ih fun t ht => h t (List.mem_cons_of_mem s ht)
      rw [List.map_cons, packetBytes_cons, ← hrest, wireOf, List.flatMap_cons, hs, wireOf]

/-- Both loops hand on exactly the packets sent, and close only at the end of the stream, exactly
when the network delivers the bytes in runs of whole packets. -/
theorem receive_loops_round_trip_iff (sends : Sends)
    (hsent : ∀ s ∈ sends, (cxlSend s.2 s.1.image).ret = 1)
    (conn : TcpStream) (hconn : conn.bytes = wireOf sends) (simicsData : SimicsTransaction) :
    (((serverReceive conn simicsData).handed = sends.map Prod.fst ∧
        (serverReceive conn simicsData).AtEnd) ∧
      ((clientReceive conn simicsData).handed = sends.map Prod.fst ∧
        (clientReceive conn simicsData).AtEnd)) ↔
      conn.CutAtPackets := by
  have hbytes : conn.bytes = packetBytes (sends.map Prod.fst) := by
    rw [hconn, wireOf_eq_packetBytes hsent]
  rw [clientReceive_eq, and_self]
  exact serverReceive_delivers_iff _ conn simicsData hbytes

-- a send that takes everything, then the 0 that ends CXL_Send
def sendWhole : ℕ → SendOutcome := fun _ => .accept 287

theorem cxlSend_sendWhole (p : SimicsTransaction) :
    (cxlSend sendWhole p.image).ret = 1 ∧ (cxlSend sendWhole p.image).accepted = p.image := by
  have hdrop : p.image.drop (287 + 1) = [] := by
    rw [List.drop_eq_nil_iff, p.image_length]
  have hret : (cxlSend sendWhole p.image).ret = 1 := by
    rw [cxlSend, cxlSendFrom_accept sendWhole 0 p.image rfl p.image_ne_nil, hdrop,
      cxlSendFrom_nil sendWhole 1 rfl]
  exact ⟨hret, cxlSend_accepted_of_ret _ _ hret⟩

-- a send that takes half of the packet, and the rest when CXL_Send calls it again
def sendHalves : ℕ → SendOutcome := fun _ => .accept 143

theorem cxlSend_sendHalves (p : SimicsTransaction) : (cxlSend sendHalves p.image).ret = 1 := by
  have hlen : (p.image.drop (143 + 1)).length = 144 := by
    rw [List.length_drop, p.image_length]
    rfl
  have hne : p.image.drop (143 + 1) ≠ [] := by
    apply List.ne_nil_of_length_pos
    rw [hlen]
    decide
  have hdrop : (p.image.drop (143 + 1)).drop (143 + 1) = [] := by
    rw [List.drop_eq_nil_iff, hlen]
  rw [cxlSend, cxlSendFrom_accept sendHalves 0 p.image rfl p.image_ne_nil,
    cxlSendFrom_accept sendHalves 1 _ rfl hne, hdrop, cxlSendFrom_nil sendHalves 2 rfl]

-- a write and the read after it, sent one after the other
def writeThenRead : Sends :=
  [({ SimicsTransaction.zero with
      packetNumber := 1, r0w1 := 1, dataSize := 4, physicalAddress := 0x10,
      data := Vector.ofFn fun i => UInt8.ofNat i }, sendWhole),
    ({ SimicsTransaction.zero with packetNumber := 2, dataSize := 8, physicalAddress := 0x18 },
      sendHalves)]

theorem writeThenRead_sent : ∀ s ∈ writeThenRead, (cxlSend s.2 s.1.image).ret = 1 := by
  refine List.forall_mem_cons.mpr ⟨(cxlSend_sendWhole _).1, ?_⟩
  exact List.forall_mem_singleton.mpr (cxlSend_sendHalves _)

-- the network brings both packets at once
def oneSegmentConn : TcpStream where
  segments := [packetBytes (writeThenRead.map Prod.fst)]
  nonempty := by
    intro seg hseg
    rw [List.mem_singleton.mp hseg, writeThenRead, List.map_cons, packetBytes_cons]
    exact List.append_ne_nil_of_left_ne_nil (SimicsTransaction.image_ne_nil _) _

theorem receive_loops_round_trip_two :
    (((serverReceive oneSegmentConn .zero).handed = writeThenRead.map Prod.fst ∧
        (serverReceive oneSegmentConn .zero).AtEnd) ∧
      ((clientReceive oneSegmentConn .zero).handed = writeThenRead.map Prod.fst ∧
        (clientReceive oneSegmentConn .zero).AtEnd)) ∧
      oneSegmentConn.bytes.length = 576 := by
  have hlen : (packetBytes (writeThenRead.map Prod.fst)).length = 576 := by
    simp only [writeThenRead, List.map_cons, List.map_nil, packetBytes_cons, packetBytes_nil,
      List.length_append, SimicsTransaction.image_length, List.length_nil, simicsPktSize]
  have hbytes : oneSegmentConn.bytes = packetBytes (writeThenRead.map Prod.fst) :=
    List.append_nil _
  have hconn : oneSegmentConn.bytes = wireOf writeThenRead := by
    rw [wireOf_eq_packetBytes writeThenRead_sent, hbytes]
  refine ⟨?_, by rw [hbytes, hlen]⟩
  apply (receive_loops_round_trip_iff writeThenRead writeThenRead_sent _ hconn .zero).mpr
  intro seg hseg
  rw [List.mem_singleton.mp hseg, hlen]
  decide

/-- The network may deliver a packet as 287 bytes and 1 byte. -/
def shortReadConn (p : SimicsTransaction) : TcpStream where
  segments := [p.image.take 287, p.image.drop 287]
  nonempty := by
    intro seg hseg
    apply List.ne_nil_of_length_pos
    simp only [List.mem_cons, List.not_mem_nil, or_false] at hseg
    rcases hseg with rfl | rfl
    · rw [List.length_take, p.image_length]
      decide
    · rw [List.length_drop, p.image_length]
      decide

theorem shortReadConn_recv (p : SimicsTransaction) :
    ((shortReadConn p).recv simicsPktSize).1.length = 287 := by
  have hlen : (p.image.take 287).length = 287 := by
    rw [List.length_take, p.image_length]
    rfl
  simp only [shortReadConn, TcpStream.recv]
  rw [dif_neg (by rw [hlen]; decide), hlen]

theorem short_read_closes :
    ¬ ∀ (sends : Sends), (∀ s ∈ sends, (cxlSend s.2 s.1.image).ret = 1) →
      ∀ conn : TcpStream, conn.bytes = wireOf sends → ∀ simicsData : SimicsTransaction,
        ((serverReceive conn simicsData).handed = sends.map Prod.fst ∧
          (serverReceive conn simicsData).AtEnd) ∧
        ((clientReceive conn simicsData).handed = sends.map Prod.fst ∧
          (clientReceive conn simicsData).AtEnd) := by
  intro h
  have hsent : ∀ s ∈ [(SimicsTransaction.zero, sendWhole)], (cxlSend s.2 s.1.image).ret = 1 := by
    intro s hs
    rw [List.mem_singleton.mp hs]
    exact (cxlSend_sendWhole _).1
  have hconn : (shortReadConn .zero).bytes = wireOf [(.zero, sendWhole)] := by
    rw [wireOf_eq_packetBytes hsent]
    simp only [shortReadConn, TcpStream.bytes, List.flatten_cons, List.flatten_nil, List.append_nil,
      List.take_append_drop, List.map_cons, List.map_nil, packetBytes_cons, packetBytes_nil]
  have hrun := (h _ hsent _ hconn .zero).1.2.1
  have hlen := shortReadConn_recv .zero
  rw [serverReceive_close _ (by rw [hlen]; decide)] at hrun
  dsimp only at hrun
  rw [hlen] at hrun
  exact absurd hrun (by decide)

end SimConnect
