import SimConnect.ClientReconnect
import SimConnect.Framing
import SimConnect.ServerReconnect
import SimConnect.Foundation.Passage

/-!
# Network mode over any number of connections

The two processes of `clientStep` and `serverStep` with the bytes between them.  A `CXL_Send` goes
on with the static packet and the descriptor that its thread has, whatever has become of them since:
the connection may be gone, or the number may belong to a later one.
-/

open SimConnect.Foundation

namespace SimConnect

/-! ## The connections -/

/-- What one direction adds to the two processes: how much of the static packet each thread has put
out in its `CXL_Send`, the bytes on each connection, and at the other side the static packet that is
received into, whether it is still to be written, and the pipe that it is written to. -/
structure NetDirection where
  out : ℕ → ℕ
  wires : ℕ → List UInt8
  received : SimicsTransaction
  inHand : Bool
  sink : List SimicsTransaction

namespace NetDirection

def init : NetDirection where
  out := fun _ => 0
  wires := fun _ => []
  received := .zero
  inHand := false
  sink := []

def beginSend (d : NetDirection) (i : ℕ) : NetDirection :=
  { d with out := Function.update d.out i 0 }

/-- A `send` of thread `i` that takes up to `k + 1` bytes; `c` is the connection behind its
descriptor. -/
def send (d : NetDirection) (pool : Pool) (c : Option ℕ) (i k : ℕ) : Option NetDirection :=
  if (pool.workers i).pc = .forward then
    match c, pool.simicsData.image.drop (d.out i) with
    | some c, b :: bs => some { d with
        out := Function.update d.out i (d.out i + min (k + 1) (b :: bs).length)
        wires := Function.update d.wires c (d.wires c ++ (b :: bs).take (k + 1)) }
    | _, _ => none
  else none

theorem send_accept {d : NetDirection} {pool : Pool} {i : ℕ} (c k : ℕ)
    (hpc : (pool.workers i).pc = .forward) (hrest : pool.simicsData.image.drop (d.out i) ≠ []) :
    ∃ d', d.send pool (some c) i k = some d' ∧
      pool.simicsData.image.drop (d'.out i) =
        (pool.simicsData.image.drop (d.out i)).drop (k + 1) ∧
      d'.wires c = d.wires c ++ (pool.simicsData.image.drop (d.out i)).take (k + 1) := by
  obtain ⟨b, bs, hcons⟩ := List.exists_cons_of_ne_nil hrest
  unfold send
  rw [if_pos hpc, hcons]
  refine ⟨_, rfl, ?_, Function.update_self _ _ _⟩
  dsimp only
  rw [Function.update_self, ← List.drop_drop, hcons]
  by_cases hk : k + 1 ≤ (b :: bs).length
  · rw [Nat.min_eq_left hk]
  · rw [Nat.min_eq_right (Nat.le_of_not_le hk), List.drop_length,
      List.drop_of_length_le (Nat.le_of_not_le hk)]

/-- A `CXL_Send` over a connection that stays is `send` calls of this kind, up to one that ends
it. -/
theorem exec_cxlSendFrom (os : ℕ → SendOutcome) (j c : ℕ) {pool : Pool} {i : ℕ}
    (hpc : (pool.workers i).pc = .forward) (d : NetDirection) :
    ∃ ks d', exec (fun d k => d.send pool (some c) i k) d ks = some d' ∧
      d'.wires c = d.wires c ++
        (cxlSendFrom os j (pool.simicsData.image.drop (d.out i))).accepted ∧
      ks.length + 1 = (cxlSendFrom os j (pool.simicsData.image.drop (d.out i))).calls := by
  induction hn : (pool.simicsData.image.drop (d.out i)).length using Nat.strong_induction_on
    generalizing j d with
  | h n ih =>
      cases hos : os j with
      | fail =>
          rw [cxlSendFrom_fail os j _ hos]
          exact ⟨[], d, rfl, (List.append_nil _).symm, rfl⟩
      | accept k =>
          by_cases hrest : pool.simicsData.image.drop (d.out i) = []
          · rw [hrest, cxlSendFrom_nil os j hos]
            exact ⟨[], d, rfl, (List.append_nil _).symm, rfl⟩
          · obtain ⟨d₁, hsend, hdrop, hwire⟩ := send_accept (d := d) c k hpc hrest
            have hpos := List.length_pos_iff.mpr hrest
            obtain ⟨ks, d', hexec, hwire', hcalls⟩ := ih _
              (by rw [← hn, hdrop, List.length_drop]; omega) (j + 1) d₁ rfl
            rw [cxlSendFrom_accept os j _ hos hrest, ← hdrop]
            refine ⟨k :: ks, d', ?_, ?_, ?_⟩
            · rw [exec, hsend, Option.bind_some, hexec]
            · rw [hwire', hwire, List.append_assoc]
            · rw [List.length_cons, hcalls]

/-- A `recv` that finds up to `k + 1` bytes, and whether it has got a whole packet. -/
def recv (d : NetDirection) (c : Option ℕ) (k : ℕ) : Option (NetDirection × Bool) :=
  match c, d.inHand with
  | some c, false =>
      let got := (d.wires c).take (min (k + 1) simicsPktSize)
      if got = [] then none
      else some ({ d with
        wires := Function.update d.wires c ((d.wires c).drop got.length)
        received := d.received.overlay got
        inHand := got.length = simicsPktSize }, got.length = simicsPktSize)
  | _, _ => none

-- `true`: the packet is written; `false`: recv has given 0 or -1
def handOn (d : NetDirection) : Bool → Option NetDirection
  | true =>
      if d.inHand then some { d with inHand := false, sink := d.sink ++ [d.received] } else none
  | false => if d.inHand then none else some d

end NetDirection

/-- The relay client and the relay server.  `made` connections have been made so far, and those of
`backlog` wait for `accept`; a descriptor that is connected belongs to the connection that
`clientConn` or `serverConn` gives. -/
structure RelayNet where
  client : ClientState
  server : ServerState
  clientConn : ℤ → ℕ
  serverConn : ℤ → ℕ
  made : ℕ
  backlog : List ℕ
  request : NetDirection
  reply : NetDirection

-- the connection behind a descriptor
def Shared.conn (sh : Shared) (conns : ℤ → ℕ) (fd : ℤ) : Option ℕ :=
  if sh.sockets fd = .connected then some (conns fd) else none

namespace RelayNet

def init (fd : ℤ) (clientStop serverStop : Bool) : RelayNet where
  client := clientInit fd clientStop .zero []
  server := serverInit serverStop .zero []
  clientConn := fun _ => 0
  serverConn := fun _ => 0
  made := 0
  backlog := []
  request := .init
  reply := .init

-- the connection of the main threads' sockets
def clientSock (s : RelayNet) : Option ℕ := s.client.shared.conn s.clientConn s.client.shared.socket

def serverSock (s : RelayNet) : Option ℕ := s.server.shared.conn s.serverConn s.server.shared.socket

-- the connection of a reader or of a reply thread
def readerSock (s : RelayNet) (i : ℕ) : Option ℕ :=
  s.client.shared.conn s.clientConn (s.client.pool.workers i).sock

def replierSock (s : RelayNet) (i : ℕ) : Option ℕ :=
  s.server.shared.conn s.serverConn (s.server.pool.workers i).sock

end RelayNet

/-- The statements of the two processes, where `send i` of a thread is the end of its `CXL_Send` and
`receive true` the write of the packet received, and single `send` and `recv` calls. -/
inductive NetAct
  | client (a : ClientAct)
  | server (a : ServerAct)
  | sendRequest (i k : ℕ)
  | recvRequest (k : ℕ)
  | sendReply (i k : ℕ)
  | recvReply (k : ℕ)

/-- What a step of the client does to the rest.  A connection breaks down where a `send` or a `recv`
fails, and the requests come from the device, so `disconnect` and `enqueue` are no steps here. -/
def clientEffect (s : RelayNet) (client : ClientState) : ClientAct → Option RelayNet
  | .connect true => some { s with
      client
      clientConn := Function.update s.clientConn s.client.shared.socket s.made
      made := s.made + 1
      backlog := s.backlog ++ [s.made] }
  | .reader (.deque i) => some { s with client, request := s.request.beginSend i }
  | .receive ok => (s.reply.handOn ok).map fun reply => { s with client, reply }
  | .disconnect _ => none
  | .enqueue _ => none
  | _ => some { s with client }

def serverEffect (s : RelayNet) (server : ServerState) : ServerAct → Option RelayNet
  | .accept fd =>
      match s.backlog with
      | c :: rest => some { s with
          server
          serverConn := Function.update s.serverConn fd c
          backlog := rest }
      | [] => none
  | .thread (.deque i) => some { s with server, reply := s.reply.beginSend i }
  | .receive ok => (s.request.handOn ok).map fun request => { s with server, request }
  | .disconnect _ => none
  | .reply _ => none
  | _ => some { s with server }

def netStep (s : RelayNet) : NetAct → Option RelayNet
  | .client a => (clientStep s.client a).bind fun client => clientEffect s client a
  | .server a => (serverStep s.server a).bind fun server => serverEffect s server a
  | .sendRequest i k =>
      (s.request.send s.client.pool (s.readerSock i) i k).map fun request => { s with request }
  | .sendReply i k =>
      (s.reply.send s.server.pool (s.replierSock i) i k).map fun reply => { s with reply }
  | .recvRequest k =>
      if s.server.pc = .receive then
        (s.request.recv s.serverSock k).bind fun (request, whole) =>
          if whole then some { s with request }
          else (serverStep s.server (.receive false)).map fun server => { s with server, request }
      else none
  | .recvReply k =>
      if s.client.pc = .receive then
        (s.reply.recv s.clientSock k).bind fun (reply, whole) =>
          if whole then some { s with reply }
          else (clientStep s.client (.receive false)).map fun client => { s with client, reply }
      else none

/-! ## Each direction as a passage -/

def packetEncoding : Encoding SimicsTransaction UInt8 where
  size := simicsPktSize
  size_pos := by decide
  bytes := SimicsTransaction.image
  length_bytes := SimicsTransaction.image_length
  bytes_inj := SimicsTransaction.image_injective

abbrev PacketPassage := Passage SimicsTransaction UInt8

abbrev PacketPassage.Step : PacketPassage → PacketPassage → Prop := Passage.Step packetEncoding

-- how much a thread in CXL_Send has put out, while there is more
def NetDirection.sending (d : NetDirection) (pool : Pool) (i : ℕ) : Option ℕ :=
  if (pool.workers i).pc = .forward ∧ d.out i < simicsPktSize then some (d.out i) else none

def NetDirection.passage (d : NetDirection) (pool : Pool) (via : ℕ → Option ℕ)
    (heard fresh : ℕ → Prop) : PacketPassage where
  source := pool.pipe
  buffer := pool.simicsData
  out := d.sending pool
  via := via
  wires := d.wires
  heard := heard
  fresh := fresh
  inHand := if d.inHand then some d.received else none
  sink := d.sink

namespace NetDirection

variable {d : NetDirection} {pool pool' : Pool} {via via' : ℕ → Option ℕ}
  {heard heard' fresh fresh' : ℕ → Prop} {i k : ℕ}

theorem beginSend_out (d : NetDirection) (i : ℕ) : (d.beginSend i).out i = 0 :=
  Function.update_self _ _ _

theorem beginSend_out_of_ne (d : NetDirection) {i j : ℕ} (h : j ≠ i) :
    (d.beginSend i).out j = d.out j :=
  Function.update_of_ne h _ _

theorem holds_of_sending {n : ℕ} (h : d.sending pool i = some n) :
    pool.Holds i ∧ n = d.out i ∧ n < simicsPktSize := by
  rw [sending] at h
  split at h
  · next hi =>
      cases h
      exact ⟨hi.1, rfl, hi.2⟩
  · cases h

/-- What is left to the threads and connections while no packet moves. -/
theorem passage_control (hpipe : pool'.pipe = pool.pipe)
    (hdata : pool'.simicsData = pool.simicsData)
    (hholds : ∀ i, pool'.Holds i → pool.Holds i)
    (hvia : ∀ i c, pool'.Holds i → via' i = some c → via i = some c ∨ fresh c)
    (hheard : ∀ c, heard' c → heard c ∨ fresh c) (hfresh : ∀ c, fresh' c → fresh c) :
    (d.passage pool via heard fresh).Step (d.passage pool' via' heard' fresh') := by
  have hout : ∀ i n, d.sending pool' i = some n → d.sending pool i = some n := by
    intro i n hi
    obtain ⟨hholder, rfl, hlt⟩ := holds_of_sending hi
    exact if_pos ⟨hholds i hholder, hlt⟩
  have hstep := Passage.Step.control (E := packetEncoding) (P := d.passage pool via heard fresh)
    hout (fun i n c hi hc => hvia i c (holds_of_sending hi).1 hc) hheard hfresh
  have heq : { d.passage pool via heard fresh with
      out := d.sending pool'
      via := via'
      heard := heard'
      fresh := fresh' } = d.passage pool' via' heard' fresh' := by
    simp only [passage, hpipe, hdata]
  rwa [heq] at hstep

theorem passage_deque {p : SimicsTransaction} {rest : List SimicsTransaction}
    (hpipe : pool.pipe = p :: rest) (hpipe' : pool'.pipe = rest) (hdata : pool'.simicsData = p)
    (hholds : pool'.Holds i) (hothers : ∀ j, j ≠ i → pool'.workers j = pool.workers j)
    (hvia : ∀ j, via' j = via j) :
    (d.passage pool via heard fresh).Step ((d.beginSend i).passage pool' via' heard fresh) := by
  obtain rfl := funext hvia
  have hstep := Passage.Step.dequeue (E := packetEncoding) (P := d.passage pool via' heard fresh)
    (i := i) hpipe
  have hout : Function.update (d.sending pool) i (some 0) = (d.beginSend i).sending pool' := by
    funext j
    by_cases hj : j = i
    · subst hj
      rw [Function.update_self, sending, beginSend_out, if_pos ⟨hholds, by decide⟩]
    · rw [Function.update_of_ne hj, sending, sending, hothers j hj, beginSend_out_of_ne d hj]
  have heq : { d.passage pool via' heard fresh with
      source := rest
      buffer := p
      out := Function.update (d.sending pool) i (some 0) } =
      (d.beginSend i).passage pool' via' heard fresh := by
    rw [hout, ← hpipe', ← hdata]
    rfl
  rwa [← heq]

theorem passage_send {d' : NetDirection} (h : d.send pool (via i) i k = some d')
    (hfresh : ∀ c, via i = some c → ¬ fresh c) :
    (d.passage pool via heard fresh).Step (d'.passage pool via heard fresh) := by
  unfold send at h
  by_cases hpc : (pool.workers i).pc = .forward
  · rw [if_pos hpc] at h
    split at h
    · next c b bs hvia hrest =>
        rw [← hrest] at h
        cases h
        have hlen : (pool.simicsData.image.drop (d.out i)).length = simicsPktSize - d.out i := by
          rw [List.length_drop, SimicsTransaction.image_length]
        have hlt : d.out i < simicsPktSize := by
          rw [hrest, List.length_cons] at hlen
          omega
        have hholder : d.sending pool i = some (d.out i) := if_pos ⟨hpc, hlt⟩
        have hstep := Passage.Step.send (E := packetEncoding)
          (P := d.passage pool via heard fresh) k hholder hlt hvia (hfresh c hvia)
        have hout : Function.update (d.sending pool) i
            (if d.out i + (k + 1) < simicsPktSize then some (d.out i + (k + 1)) else none) =
            sending { d with
              out := Function.update d.out i
                (d.out i + min (k + 1) (pool.simicsData.image.drop (d.out i)).length) } pool := by
          funext j
          by_cases hj : j = i
          · subst hj
            simp only [sending, Function.update_self, hlen, hpc, true_and]
            by_cases hmore : d.out j + (k + 1) < simicsPktSize
            · rw [if_pos hmore, Nat.min_eq_left (by omega), if_pos hmore]
            · rw [if_neg hmore, Nat.min_eq_right (by omega), if_neg (by omega)]
          · simp only [sending, Function.update_of_ne hj]
        have heq : (d.passage pool via heard fresh).sendOn packetEncoding i (d.out i) c k =
            passage { d with
              out := Function.update d.out i
                (d.out i + min (k + 1) (pool.simicsData.image.drop (d.out i)).length)
              wires := Function.update d.wires c
                (d.wires c ++ (pool.simicsData.image.drop (d.out i)).take (k + 1)) }
              pool via heard fresh :=
          Passage.ext rfl rfl hout rfl rfl rfl rfl rfl rfl
        rwa [← heq]
    · cases h
  · rw [if_neg hpc] at h
    cases h

theorem recv_cases {d' : NetDirection} {c : Option ℕ} {whole : Bool}
    (h : d.recv c k = some (d', whole)) :
    ∃ c₁ n, c = some c₁ ∧ n ≤ simicsPktSize ∧ d.inHand = false ∧ (d.wires c₁).take n ≠ [] ∧
      (whole = true ↔ ((d.wires c₁).take n).length = simicsPktSize) ∧
      d' = { d with
        wires := Function.update d.wires c₁ ((d.wires c₁).drop ((d.wires c₁).take n).length)
        received := d.received.overlay ((d.wires c₁).take n)
        inHand := whole } := by
  unfold recv at h
  split at h
  · next c₁ hhand =>
      by_cases hgot : (d.wires c₁).take (min (k + 1) simicsPktSize) = []
      · rw [if_pos hgot] at h
        cases h
      · rw [if_neg hgot] at h
        cases h
        exact ⟨c₁, _, rfl, Nat.min_le_right _ _, hhand, hgot, decide_eq_true_iff, rfl⟩
  · cases h

theorem passage_recvWhole {d' : NetDirection} {c : Option ℕ} (h : d.recv c k = some (d', true))
    (hheard : ∀ c₁, c = some c₁ → heard c₁) :
    (d.passage pool via heard fresh).Step (d'.passage pool via heard fresh) := by
  obtain ⟨c₁, n, hc, hn, hhand, _, hwhole, rfl⟩ := recv_cases h
  have hlen := hwhole.mp rfl
  obtain rfl : n = simicsPktSize := by
    rw [List.length_take] at hlen
    omega
  have himage : (d.received.overlay ((d.wires c₁).take simicsPktSize)).image =
      (d.wires c₁).take simicsPktSize := by
    rw [SimicsTransaction.overlay_of_length _ hlen, SimicsTransaction.image_ofImage hlen]
  have hstep := Passage.Step.recvWhole (E := packetEncoding)
    (P := d.passage pool via heard fresh) (hheard c₁ hc) (if_neg (by rw [hhand]; decide)) himage
  rw [hlen]
  exact hstep

theorem passage_recvShort {d' : NetDirection} {c : Option ℕ} (h : d.recv c k = some (d', false))
    (hheard : ∀ c₁, heard' c₁ → heard c₁ ∧ c ≠ some c₁) :
    (d.passage pool via heard fresh).Step (d'.passage pool via heard' fresh) := by
  obtain ⟨c₁, n, rfl, _, hhand, hgot, _, rfl⟩ := recv_cases h
  have htake : (d.wires c₁).take ((d.wires c₁).take n).length = (d.wires c₁).take n := by
    rw [List.length_take, ← List.take_eq_take_min]
  have hstep := Passage.Step.recvShort (E := packetEncoding)
    (P := d.passage pool via heard fresh) (c := c₁) (m := ((d.wires c₁).take n).length)
    (by rw [← htake] at hgot; exact hgot)
    fun c' (hc' : heard' c') => ⟨(hheard c' hc').1, fun heq => (hheard c' hc').2 (heq ▸ rfl)⟩
  have hnone : (d.passage pool via heard fresh).inHand = none := if_neg (by rw [hhand]; decide)
  have heq := Passage.ext (x := { d.passage pool via heard fresh with
    wires := Function.update d.wires c₁ ((d.wires c₁).drop ((d.wires c₁).take n).length)
    heard := heard' }) (y := passage { d with
    wires := Function.update d.wires c₁ ((d.wires c₁).drop ((d.wires c₁).take n).length)
    received := d.received.overlay ((d.wires c₁).take n)
    inHand := false } pool via heard' fresh) rfl rfl rfl rfl rfl rfl rfl hnone rfl
  rwa [← heq]

theorem handOn_false {d' : NetDirection} (h : d.handOn false = some d') : d' = d := by
  simp only [handOn] at h
  split_ifs at h
  exact (Option.some.inj h).symm

theorem passage_handOn {d' : NetDirection} (h : d.handOn true = some d') :
    (d.passage pool via heard fresh).Step (d'.passage pool via heard fresh) := by
  by_cases hhand : d.inHand = true
  · simp only [handOn, if_pos hhand] at h
    cases h
    exact Passage.Step.handOn (E := packetEncoding) (P := d.passage pool via heard fresh)
      (if_pos hhand)
  · simp only [handOn, if_neg hhand] at h
    cases h

end NetDirection

end SimConnect
