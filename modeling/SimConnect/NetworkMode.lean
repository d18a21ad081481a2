import SimConnect.Framing
import SimConnect.Pipes
import SimConnect.Foundation.Transition

/-!
# One way of a connection in network mode

With `usenetwork` 1 a packet goes from a pipe through `CXL_Send`, a TCP connection and `CXL_Recv`
into the pipe at the other side.  The model follows one connection until a `send` or a `recv` ends
it: sends may be partial, and a `recv` that does not get a whole packet closes the socket.
-/

open SimConnect.Foundation

namespace SimConnect

/-! ## One way of the connection -/

-- the thread that reads a pipe and sends: in CXL_Send with `rest` to go, or cut off with `rest`
-- left
inductive SenderAt
  | dequeue
  | sending (rest : List UInt8)
  | broken (rest : List UInt8)

-- the thread that receives and writes a pipe
inductive ReceiverAt
  | recv
  | enqueue
  | closed
  deriving DecidableEq

/-- One way: the pipe that is read, the thread that sends with its static packet, the bytes on the
connection, the thread that receives with its static packet, the pipe that is written. -/
structure OneWay where
  source : List SimicsTransaction
  sender : SenderAt
  sent : SimicsTransaction
  wire : List UInt8
  receiver : ReceiverAt
  received : SimicsTransaction
  sink : List SimicsTransaction

def OneWay.init : OneWay where
  source := []
  sender := .dequeue
  sent := .zero
  wire := []
  receiver := .recv
  received := .zero
  sink := []

/-- `recv k` finds up to `k + 1` bytes, and `lost` is a `recv` that gives 0 or -1. -/
inductive WayLabel
  | dequeue
  | send (o : SendOutcome)
  | recv (k : ℕ)
  | lost
  | enqueue

def wayStep (w : OneWay) : WayLabel → Option OneWay
  | .dequeue =>
      match w.sender, w.source with
      | .dequeue, p :: rest =>
          let sent := (ReadResult.packet p).store w.sent
          some { w with source := rest, sent, sender := .sending sent.image }
      | _, _ => none
  | .send o =>
      match w.sender, o with
      -- nothing is left: CXL_Send returns 1, or -1 with the packet out
      | .sending [], _ => some { w with sender := .dequeue }
      | .sending (b :: bs), .accept k =>
          some { w with
            sender := .sending ((b :: bs).drop (k + 1))
            wire := w.wire ++ (b :: bs).take (k + 1) }
      | .sending (b :: bs), .fail => some { w with sender := .broken (b :: bs) }
      | _, _ => none
  | .recv k =>
      match w.receiver, w.wire with
      | .recv, b :: bs =>
          let got := (b :: bs).take (min (k + 1) simicsPktSize)
          if got.length = simicsPktSize then
            some { w with
              wire := (b :: bs).drop simicsPktSize
              receiver := .enqueue
              received := w.received.overlay got }
          -- CXL_CloseSocket; `wire` keeps what is lost with the connection
          else some { w with receiver := .closed, received := w.received.overlay got }
      | _, _ => none
  | .lost =>
      match w.receiver with
      | .recv => some { w with receiver := .closed }
      | _ => none
  | .enqueue =>
      match w.receiver with
      | .enqueue => some { w with receiver := .recv, sink := w.sink ++ [w.received] }
      | _ => none

-- the bytes of the packet being sent that are not out yet
def SenderAt.rest : SenderAt → List UInt8
  | .dequeue => []
  | .sending rest => rest
  | .broken rest => rest

-- a packet that is received and not written yet
def ReceiverAt.held (r : ReceiverAt) (p : SimicsTransaction) : List SimicsTransaction :=
  if r = .enqueue then [p] else []

/-- What a step of one of the two threads can do, with what it finds. -/
inductive OneWay.Move (w : OneWay) : WayLabel → OneWay → Prop
  | dequeue {p : SimicsTransaction} {rest : List SimicsTransaction} : w.sender = .dequeue →
      w.source = p :: rest →
      Move w .dequeue { w with source := rest, sent := p, sender := .sending p.image }
  | sentAll {o : SendOutcome} : w.sender = .sending [] →
      Move w (.send o) { w with sender := .dequeue }
  | accepted {rest : List UInt8} {k : ℕ} : w.sender = .sending rest → rest ≠ [] →
      Move w (.send (.accept k)) { w with
        sender := .sending (rest.drop (k + 1))
        wire := w.wire ++ rest.take (k + 1) }
  | sendFailed {rest : List UInt8} : w.sender = .sending rest →
      Move w (.send .fail) { w with sender := .broken rest }
  | received {k : ℕ} : w.receiver = .recv →
      (w.wire.take (min (k + 1) simicsPktSize)).length = simicsPktSize →
      Move w (.recv k) { w with
        wire := w.wire.drop simicsPktSize
        receiver := .enqueue
        received := w.received.overlay (w.wire.take (min (k + 1) simicsPktSize)) }
  | shortRecv {k : ℕ} {received : SimicsTransaction} : w.receiver = .recv →
      (w.wire.take (min (k + 1) simicsPktSize)).length ≠ simicsPktSize →
      Move w (.recv k) { w with receiver := .closed, received }
  | lost : w.receiver = .recv → Move w .lost { w with receiver := .closed }
  | enqueue : w.receiver = .enqueue →
      Move w .enqueue { w with receiver := .recv, sink := w.sink ++ [w.received] }

theorem move_of_wayStep {w w' : OneWay} {l : WayLabel} (hstep : wayStep w l = some w') :
    w.Move l w' := by
  cases l with
  | dequeue =>
      simp only [wayStep, ReadResult.store_packet] at hstep
      split at hstep
      · next hsender hsource =>
          cases hstep
          exact .dequeue hsender hsource
      · cases hstep
  | send o =>
      simp only [wayStep] at hstep
      split at hstep
      · next hsender =>
          cases hstep
          exact .sentAll hsender
      · next hsender =>
          cases hstep
          exact .accepted hsender (List.cons_ne_nil _ _)
      · next hsender =>
          cases hstep
          exact .sendFailed hsender
      · cases hstep
  | recv k =>
      simp only [wayStep] at hstep
      split at hstep
      · next b bs hreceiver hwire =>
          rw [← hwire] at hstep
          by_cases hfull : (w.wire.take (min (k + 1) simicsPktSize)).length = simicsPktSize
          · rw [if_pos hfull] at hstep
            cases hstep
            exact .received hreceiver hfull
          · rw [if_neg hfull] at hstep
            cases hstep
            exact .shortRecv hreceiver hfull
      · cases hstep
  | lost =>
      simp only [wayStep] at hstep
      split at hstep
      · next hreceiver =>
          cases hstep
          exact .lost hreceiver
      · cases hstep
  | enqueue =>
      simp only [wayStep] at hstep
      split at hstep
      · next hreceiver =>
          cases hstep
          exact .enqueue hreceiver
      · cases hstep

namespace OneWay

/-- The packets on the way, the oldest first. -/
def Carries (w : OneWay) (ps : List SimicsTransaction) : Prop :=
  ∃ inside, w.wire ++ w.sender.rest = packetBytes inside ∧
    ps = w.sink ++ w.receiver.held w.received ++ inside ++ w.source

-- a whole recv takes exactly the oldest packet off the connection
theorem recv_whole {wire rest : List UInt8} {inside : List SimicsTransaction} {n : ℕ}
    (hbytes : wire ++ rest = packetBytes inside)
    (hfull : (wire.take (min n simicsPktSize)).length = simicsPktSize) :
    ∃ p later, inside = p :: later ∧ wire.take (min n simicsPktSize) = p.image ∧
      wire.drop simicsPktSize ++ rest = packetBytes later := by
  rw [List.length_take] at hfull
  have hmin : min n simicsPktSize = simicsPktSize := by omega
  have hlen : simicsPktSize ≤ wire.length := by omega
  rw [hmin]
  cases inside with
  | nil =>
      have hempty : wire = [] := (List.append_eq_nil_iff.mp hbytes).1
      rw [hempty] at hlen
      exact absurd hlen (by decide)
  | cons p later =>
      rw [packetBytes_cons] at hbytes
      have htake : (wire ++ rest).take simicsPktSize = wire.take simicsPktSize :=
        List.take_append_of_le_length hlen
      have hdrop : (wire ++ rest).drop simicsPktSize = wire.drop simicsPktSize ++ rest :=
        List.drop_append_of_le_length hlen
      refine ⟨p, later, rfl, ?_, ?_⟩
      · rw [← htake, hbytes, List.take_left' p.image_length]
      · rw [← hdrop, hbytes, List.drop_left' p.image_length]

/-- No step of the two threads loses, repeats or reorders a packet. -/
theorem Carries.step {w w' : OneWay} {ps : List SimicsTransaction} {l : WayLabel}
    (h : w.Carries ps) (hstep : wayStep w l = some w') : w'.Carries ps := by
  obtain ⟨inside, hbytes, hps⟩ := h
  cases move_of_wayStep hstep with
  | @dequeue p rest hsender hsource =>
      rw [hsender, SenderAt.rest, List.append_nil] at hbytes
      refine ⟨inside ++ [p], ?_, ?_⟩
      · simp only [SenderAt.rest, packetBytes_append, hbytes, packetBytes_cons, packetBytes_nil,
          List.append_nil]
      · rw [hps, hsource]
        simp only [List.append_assoc, List.singleton_append]
  | sentAll hsender =>
      rw [hsender] at hbytes
      exact ⟨inside, hbytes, hps⟩
  | accepted hsender _ =>
      rw [hsender, SenderAt.rest] at hbytes
      refine ⟨inside, ?_, hps⟩
      simp only [SenderAt.rest]
      rw [List.append_assoc, List.take_append_drop, hbytes]
  | sendFailed hsender =>
      rw [hsender, SenderAt.rest] at hbytes
      exact ⟨inside, hbytes, hps⟩
  | received hreceiver hfull =>
      obtain ⟨p, later, hinside, himage, hlater⟩ := recv_whole hbytes hfull
      refine ⟨later, hlater, ?_⟩
      rw [hps, hreceiver, hinside]
      simp only [ReceiverAt.held, himage, SimicsTransaction.overlay_image, if_true,
        reduceCtorEq, if_false, List.append_nil, List.append_assoc, List.cons_append,
        List.nil_append]
  | shortRecv hreceiver _ =>
      refine ⟨inside, hbytes, ?_⟩
      rw [hps, hreceiver]
      rfl
  | lost hreceiver =>
      refine ⟨inside, hbytes, ?_⟩
      rw [hps, hreceiver]
      rfl
  | enqueue hreceiver =>
      refine ⟨inside, hbytes, ?_⟩
      rw [hps, hreceiver]
      simp only [ReceiverAt.held, if_true, reduceCtorEq, if_false, List.append_nil]

-- a write to the pipe at the start and a read from the pipe at the end
theorem Carries.put {w : OneWay} {ps : List SimicsTransaction} (h : w.Carries ps)
    (p : SimicsTransaction) : { w with source := w.source ++ [p] }.Carries (ps ++ [p]) := by
  obtain ⟨inside, hbytes, hps⟩ := h
  refine ⟨inside, hbytes, ?_⟩
  rw [hps]
  simp only [List.append_assoc]

theorem Carries.get {w : OneWay} {ps : List SimicsTransaction} (h : w.Carries ps)
    {p : SimicsTransaction} {rest : List SimicsTransaction} (hsink : w.sink = p :: rest) :
    ∃ later, ps = p :: later ∧ { w with sink := rest }.Carries later := by
  obtain ⟨inside, hbytes, hps⟩ := h
  rw [hsink] at hps
  exact ⟨_, hps, inside, hbytes, rfl⟩

/-! ## CXL_Send -/

-- what a CXL_Send of `rest` leaves
def sendRun (w : OneWay) (rest : List UInt8) (run : SendRun) : OneWay :=
  { w with
    wire := w.wire ++ run.accepted
    sender := if run.accepted = rest then .dequeue else .broken (rest.drop run.accepted.length) }

-- one send in front of the others
theorem sendRun_accept (w : OneWay) {rest : List UInt8} {k : ℕ} {run : SendRun}
    (hrun : run.accepted <+: rest.drop (k + 1)) :
    { w with
      wire := w.wire ++ rest.take (k + 1)
      sender := .sending (rest.drop (k + 1)) }.sendRun (rest.drop (k + 1)) run =
      w.sendRun rest
        { ret := run.ret
          accepted := rest.take (k + 1) ++ run.accepted
          calls := run.calls + 1 } := by
  have hcancel : ∀ bs : List UInt8, rest.take (k + 1) ++ bs = rest ↔ bs = rest.drop (k + 1) := by
    intro bs
    rw [← List.append_cancel_left_eq (rest.take (k + 1)) bs, List.take_append_drop]
  by_cases hall : run.accepted = rest.drop (k + 1)
  · simp only [sendRun, hcancel, hall, if_true, List.append_assoc]
  · have hlt : k + 1 < rest.length := by
      by_contra hge
      have hnil : rest.drop (k + 1) = [] := List.drop_eq_nil_of_le (Nat.le_of_not_lt hge)
      rw [hnil] at hall hrun
      exact hall (List.prefix_nil.mp hrun)
    have hlen : (rest.take (k + 1)).length = k + 1 := by
      rw [List.length_take, Nat.min_eq_left hlt.le]
    simp only [sendRun, hcancel, hall, if_false, List.append_assoc, List.length_append, hlen,
      List.drop_drop]

/-- The `send` calls of one `CXL_Send`: what it puts out is on the connection, and the thread goes
on unless some of the packet is left. -/
theorem exec_cxlSendFrom (os : ℕ → SendOutcome) (i : ℕ) (w : OneWay) (rest : List UInt8)
    (hsender : w.sender = .sending rest) :
    exec wayStep w ((List.range (cxlSendFrom os i rest).calls).map fun j => .send (os (i + j))) =
      some (w.sendRun rest (cxlSendFrom os i rest)) := by
  induction hn : rest.length using Nat.strong_induction_on generalizing i w rest with
  | h n ih =>
      cases rest with
      | nil =>
          have hrun : (cxlSendFrom os i []).calls = 1 ∧ (cxlSendFrom os i []).accepted = [] := by
            cases hos : os i with
            | fail =>
                rw [cxlSendFrom_fail os i [] hos]
                exact ⟨rfl, rfl⟩
            | accept k =>
                rw [cxlSendFrom_nil os i hos]
                exact ⟨rfl, rfl⟩
          rw [hrun.1, sendRun, hrun.2, if_pos rfl, List.append_nil]
          simp only [List.range_one, List.map_cons, List.map_nil, exec, wayStep, hsender,
            Option.bind_some]
      | cons b bs =>
          cases hos : os i with
          | fail =>
              rw [cxlSendFrom_fail os i (b :: bs) hos, sendRun, List.append_nil,
                if_neg (List.cons_ne_nil b bs).symm]
              simp only [List.range_one, List.map_cons, List.map_nil, exec, wayStep, hsender,
                Nat.add_zero, hos, Option.bind_some, List.length_nil, List.drop_zero]
          | accept k =>
              have hlen : ((b :: bs).drop (k + 1)).length < n := by
                rw [← hn, List.length_drop, List.length_cons]
                omega
              have hlater := ih _ hlen (i + 1)
                { w with
                  wire := w.wire ++ (b :: bs).take (k + 1)
                  sender := .sending ((b :: bs).drop (k + 1)) } _ rfl rfl
              rw [sendRun_accept w (cxlSendFrom_spec os (i + 1) _).1] at hlater
              have hcalls : ∀ m : ℕ,
                  (List.range (m + 1)).map (fun j => WayLabel.send (os (i + j))) =
                    .send (os i) :: (List.range m).map fun j => .send (os (i + 1 + j)) := by
                intro m
                rw [List.range_succ_eq_map, List.map_cons, List.map_map, Nat.add_zero]
                congr 1
                apply List.map_congr_left
                intro j _
                exact congrArg WayLabel.send (outcome_shift os i j)
              rw [cxlSendFrom_accept os i (b :: bs) hos (List.cons_ne_nil b bs)]
              dsimp only
              rw [hcalls, exec, ← hlater]
              simp only [wayStep, hsender, hos, Option.bind_some]

/-! ## CXL_Recv -/

-- a recv of the stream is one of the recv steps
theorem wayStep_recv {conn : TcpStream} {w : OneWay} (hconn : w.wire = conn.bytes)
    (hne : conn.bytes ≠ []) (hreceiver : w.receiver = .recv) :
    ∃ k, wayStep w (.recv k) = some
      (if (conn.recv simicsPktSize).1.length = simicsPktSize then
        { w with
          wire := (conn.recv simicsPktSize).2.bytes
          receiver := .enqueue
          received := w.received.overlay (conn.recv simicsPktSize).1 }
      else
        { w with
          receiver := .closed
          received := w.received.overlay (conn.recv simicsPktSize).1 }) := by
  have hbytes := conn.recv_bytes simicsPktSize
  obtain ⟨_ | ⟨seg, rest⟩, hsegs⟩ := conn
  · exact absurd rfl hne
  · have hpos : 0 < seg.length := List.length_pos_iff.mpr (hsegs seg List.mem_cons_self)
    have hseg : seg.length - 1 + 1 = seg.length := Nat.sub_add_cancel hpos
    have hgot : (TcpStream.recv ⟨seg :: rest, hsegs⟩ simicsPktSize).1 =
        w.wire.take (min (seg.length - 1 + 1) simicsPktSize) := by
      rw [hconn, hseg, TcpStream.bytes, List.flatten_cons, TcpStream.recv]
      by_cases hlt : simicsPktSize < seg.length
      · rw [dif_pos hlt, Nat.min_eq_right hlt.le, List.take_append_of_le_length hlt.le]
      · rw [dif_neg hlt, Nat.min_eq_left (Nat.le_of_not_lt hlt), List.take_left' rfl]
    refine ⟨seg.length - 1, ?_⟩
    rw [← hconn] at hbytes hne
    cases hwire : w.wire with
    | nil => exact absurd hwire hne
    | cons b bs =>
        simp only [wayStep, hreceiver, hwire]
        rw [← hwire, ← hgot]
        by_cases hfull :
            (TcpStream.recv ⟨seg :: rest, hsegs⟩ simicsPktSize).1.length = simicsPktSize
        · rw [if_pos hfull, if_pos hfull, ← hbytes, List.drop_left' hfull]
        · rw [if_neg hfull, if_neg hfull, hwire]

/-- The receive loop of a connection is a run of the receiver: it writes the packets that the loop
hands on, and closes. -/
theorem exec_serverReceive (conn : TcpStream) (w : OneWay) (hconn : w.wire = conn.bytes)
    (hreceiver : w.receiver = .recv) :
    ∃ ls w', exec wayStep w ls = some w' ∧ w'.receiver = .closed ∧
      w'.sink = w.sink ++ (serverReceive conn w.received).handed := by
  induction hn : conn.bytes.length using Nat.strong_induction_on generalizing conn w with
  | h n ih =>
      by_cases hne : conn.bytes = []
      · -- the peer has closed: recv gives 0
        have hshort : (conn.recv simicsPktSize).1.length ≠ simicsPktSize := by
          have hgot := (List.append_eq_nil_iff.mp ((conn.recv_bytes simicsPktSize).trans hne)).1
          rw [hgot]
          decide
        refine ⟨[.lost], { w with receiver := .closed }, ?_, rfl, ?_⟩
        · simp only [exec, wayStep, hreceiver, Option.bind_some]
        · rw [serverReceive_close _ hshort, List.append_nil]
      · obtain ⟨k, hstep⟩ := wayStep_recv hconn hne hreceiver
        by_cases hfull : (conn.recv simicsPktSize).1.length = simicsPktSize
        · rw [if_pos hfull] at hstep
          have himage := SimicsTransaction.image_ofImage hfull
          have hlen := congrArg List.length (conn.recv_bytes simicsPktSize)
          rw [List.length_append, hfull] at hlen
          have hpos : 0 < simicsPktSize := by decide
          obtain ⟨ls, w', hrun, hclosed, hsink⟩ := ih (conn.recv simicsPktSize).2.bytes.length
            (by omega) (conn.recv simicsPktSize).2
            { w with
              wire := (conn.recv simicsPktSize).2.bytes
              received := w.received.overlay (conn.recv simicsPktSize).1
              sink := w.sink ++ [w.received.overlay (conn.recv simicsPktSize).1] }
            rfl hreceiver rfl
          refine ⟨.recv k :: .enqueue :: ls, w', ?_, hclosed, ?_⟩
          · rw [← hrun, exec, hstep, Option.bind_some, exec, wayStep, Option.bind_some]
            congr 2
            rw [hreceiver]
          · rw [hsink, SimicsTransaction.overlay_of_length _ hfull,
              serverReceive_packet w.received himage.symm]
            simp only [List.append_assoc, List.singleton_append]
        · rw [if_neg hfull] at hstep
          refine ⟨[.recv k], _, by rw [exec, hstep, Option.bind_some, exec], rfl, ?_⟩
          rw [serverReceive_close _ hfull, List.append_nil]

/-! ## Steps that are left -/

/-- `weight` is what a packet costs once it is in the pipe at the end. -/
def work (weight : ℕ) (w : OneWay) : ℕ :=
  (simicsPktSize + 4 + weight) * w.source.length +
    (match w.sender with
      | .dequeue => 1
      | .sending rest => rest.length + 2
      | .broken _ => 0) +
    (2 + weight) * ((w.wire.length + w.sender.rest.length) / simicsPktSize) +
    (match w.receiver with
      | .recv => 1
      | .enqueue => 2 + weight
      | .closed => 0) +
    weight * w.sink.length

theorem work_step (weight : ℕ) {w w' : OneWay} {l : WayLabel} (hstep : wayStep w l = some w') :
    w'.work weight < w.work weight := by
  cases move_of_wayStep hstep with
  | dequeue hsender hsource =>
      simp only [work, hsender, hsource, SenderAt.rest, SimicsTransaction.image_length,
        List.length_cons, List.length_nil, Nat.add_zero, Nat.mul_add, Nat.mul_one]
      have hdiv : (w.wire.length + simicsPktSize) / simicsPktSize =
          w.wire.length / simicsPktSize + 1 := Nat.add_div_right _ (by decide)
      rw [hdiv, Nat.mul_add]
      change _ + (288 + 2) + _ + _ + _ < _ + (288 + 4 + weight) + _ + _ + _ + _
      omega
  | sentAll hsender =>
      simp only [work, hsender, SenderAt.rest]
      omega
  | @accepted rest k hsender hne =>
      simp only [work, hsender, SenderAt.rest, List.length_append]
      have htotal : w.wire.length + (rest.take (k + 1)).length + (rest.drop (k + 1)).length =
          w.wire.length + rest.length := by
        rw [Nat.add_assoc, ← List.length_append, List.take_append_drop]
      rw [htotal]
      have hpos : 0 < rest.length := List.length_pos_iff.mpr hne
      have hshort : (rest.drop (k + 1)).length < rest.length := by
        rw [List.length_drop]
        omega
      omega
  | sendFailed hsender =>
      simp only [work, hsender, SenderAt.rest]
      omega
  | received hreceiver hfull =>
      rw [List.length_take] at hfull
      have hlen : simicsPktSize ≤ w.wire.length := by omega
      simp only [work, hreceiver, List.length_drop]
      have hdiv : (w.wire.length + w.sender.rest.length) / simicsPktSize =
          (w.wire.length - simicsPktSize + w.sender.rest.length) / simicsPktSize + 1 := by
        rw [← Nat.add_div_right _ (by decide : 0 < simicsPktSize)]
        congr 1
        omega
      rw [hdiv, Nat.mul_add]
      omega
  | shortRecv hreceiver _ =>
      simp only [work, hreceiver]
      omega
  | lost hreceiver =>
      simp only [work, hreceiver]
      omega
  | enqueue hreceiver =>
      simp only [work, hreceiver, List.length_append, List.length_singleton, Nat.mul_add]
      omega

theorem packetBytes_length (ps : List SimicsTransaction) :
    (packetBytes ps).length = simicsPktSize * ps.length := by
  induction ps with
  | nil => rfl
  | cons p ps ih =>
      rw [packetBytes_cons, List.length_append, p.image_length, ih, List.length_cons,
        Nat.mul_succ, Nat.add_comm]

theorem Carries.work_le {w : OneWay} {ps : List SimicsTransaction} (h : w.Carries ps)
    (weight : ℕ) : w.work weight ≤ (simicsPktSize + 4 + weight) * ps.length + 3 := by
  obtain ⟨inside, hbytes, hps⟩ := h
  have hlen : w.wire.length + w.sender.rest.length = simicsPktSize * inside.length := by
    rw [← List.length_append, hbytes, packetBytes_length]
  have hdiv : simicsPktSize * inside.length / simicsPktSize = inside.length :=
    Nat.mul_div_cancel_left _ (by decide)
  have hsender : (match w.sender with
      | .dequeue => 1
      | .sending rest => rest.length + 2
      | .broken _ => 0) ≤ simicsPktSize * inside.length + 2 := by
    cases hs : w.sender with
    | dequeue => exact Nat.le_add_left 1 _
    | sending rest =>
        rw [hs, SenderAt.rest] at hlen
        change rest.length + 2 ≤ _
        omega
    | broken rest => exact Nat.zero_le _
  have hreceiver : (match w.receiver with
      | .recv => 1
      | .enqueue => 2 + weight
      | .closed => 0) ≤ (2 + weight) * (w.receiver.held w.received).length + 1 := by
    cases w.receiver with
    | recv => exact Nat.le_add_left 1 _
    | closed => exact Nat.zero_le _
    | enqueue =>
        change 2 + weight ≤ (2 + weight) * 1 + 1
        omega
  have hsink : weight * w.sink.length ≤ (simicsPktSize + 4 + weight) * w.sink.length :=
    Nat.mul_le_mul_right _ (Nat.le_add_left weight _)
  have hheld : (2 + weight) * (w.receiver.held w.received).length ≤
      (simicsPktSize + 4 + weight) * (w.receiver.held w.received).length := by
    apply Nat.mul_le_mul_right
    omega
  have hinside : simicsPktSize * inside.length + (2 + weight) * inside.length ≤
      (simicsPktSize + 4 + weight) * inside.length := by
    rw [← Nat.add_mul]
    apply Nat.mul_le_mul_right
    omega
  rw [work, hlen, hdiv, hps]
  simp only [List.length_append, Nat.mul_add]
  omega

/-! ## A connection that stands -/

-- a send or a recv has ended the connection
def Ended (w : OneWay) : Prop :=
  (∃ rest, w.sender = .broken rest) ∨ w.receiver = .closed

-- a send gets something out, and a recv comes when a whole packet is there
def Stands (w : OneWay) : WayLabel → Prop
  | .send o => o ≠ .fail
  | .recv k => simicsPktSize ≤ min (k + 1) w.wire.length
  | .lost => False
  | _ => True

theorem wayStep_recv_whole {w : OneWay} {k : ℕ} (hreceiver : w.receiver = .recv)
    (hk : w.Stands (.recv k)) :
    wayStep w (.recv k) = some { w with
      wire := w.wire.drop simicsPktSize
      receiver := .enqueue
      received := w.received.overlay (w.wire.take (min (k + 1) simicsPktSize)) } := by
  rw [Stands] at hk
  have hfull : (w.wire.take (min (k + 1) simicsPktSize)).length = simicsPktSize := by
    rw [List.length_take]
    omega
  cases hwire : w.wire with
  | nil =>
      rw [hwire, List.length_nil, Nat.min_zero] at hk
      exact absurd hk (by decide)
  | cons b bs =>
      rw [hwire] at hfull
      simp only [wayStep, hreceiver, hwire, if_pos hfull]

theorem Stands.step {w w' : OneWay} {l : WayLabel} (h : ¬ w.Ended) (hl : w.Stands l)
    (hstep : wayStep w l = some w') : ¬ w'.Ended := by
  -- a sender that is not broken, beside a receiver as it was, and the other way round
  have hsent : ∀ w₁ : OneWay, w₁.receiver = w.receiver → (∀ rest, w₁.sender ≠ .broken rest) →
      ¬ w₁.Ended := by
    rintro w₁ hreceiver hsender (⟨rest, hbroken⟩ | hclosed)
    · exact hsender rest hbroken
    · exact h (Or.inr (hreceiver.symm.trans hclosed))
  have hreceived : ∀ w₁ : OneWay, w₁.sender = w.sender → w₁.receiver ≠ .closed → ¬ w₁.Ended := by
    rintro w₁ hsender hreceiver (⟨rest, hbroken⟩ | hclosed)
    · exact h (Or.inl ⟨rest, hsender.symm.trans hbroken⟩)
    · exact hreceiver hclosed
  cases move_of_wayStep hstep with
  | dequeue _ _ => exact hsent _ rfl nofun
  | sentAll _ => exact hsent _ rfl nofun
  | accepted _ _ => exact hsent _ rfl nofun
  | sendFailed _ => exact absurd rfl hl
  | received _ _ => exact hreceived _ rfl nofun
  | shortRecv _ hshort =>
      rw [Stands] at hl
      rw [List.length_take] at hshort
      omega
  | lost _ => exact absurd hl not_false
  | enqueue _ => exact hreceived _ rfl nofun

/-- While the connection stands one of the two threads can go on, unless every packet on the way
lies in the pipe at the end. -/
theorem Carries.stuck {w : OneWay} {ps : List SimicsTransaction} (h : w.Carries ps) :
    w.Ended ∨ (∃ l w', w.Stands l ∧ wayStep w l = some w') ∨ ps = w.sink := by
  obtain ⟨inside, hbytes, hps⟩ := h
  cases hreceiver : w.receiver with
  | closed => exact Or.inl (Or.inr hreceiver)
  | enqueue =>
      exact Or.inr (Or.inl ⟨.enqueue, _, trivial, by simp only [wayStep, hreceiver]; rfl⟩)
  | recv =>
      cases hsender : w.sender with
      | broken rest => exact Or.inl (Or.inl ⟨rest, hsender⟩)
      | sending rest =>
          right
          left
          cases rest with
          | nil => exact ⟨.send (.accept 0), _, nofun, by simp only [wayStep, hsender]; rfl⟩
          | cons b bs => exact ⟨.send (.accept 0), _, nofun, by simp only [wayStep, hsender]; rfl⟩
      | dequeue =>
          right
          rw [hsender, SenderAt.rest, List.append_nil] at hbytes
          cases hsource : w.source with
          | cons p rest =>
              exact Or.inl ⟨.dequeue, _, trivial, by simp only [wayStep, hsender, hsource]; rfl⟩
          | nil =>
              cases inside with
              | nil =>
                  right
                  rw [hps, hsource, hreceiver]
                  simp [ReceiverAt.held]
              | cons p later =>
                  left
                  have hlen : simicsPktSize ≤ w.wire.length := by
                    rw [hbytes, packetBytes_length, List.length_cons, Nat.mul_succ]
                    omega
                  have hstands : w.Stands (.recv (simicsPktSize - 1)) :=
                    le_min (by decide) hlen
                  exact ⟨_, _, hstands, wayStep_recv_whole hreceiver hstands⟩

end OneWay

end SimConnect
