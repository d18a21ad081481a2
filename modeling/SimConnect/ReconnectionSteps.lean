import SimConnect.Reconnection

/-!
# What a step of the two processes moves

A step of either process moves at most one packet in each direction: a statement of a main thread
can only give a connection up or make a new one, and only a dequeue puts a packet into the hands of
a thread.
-/

open SimConnect.Foundation

namespace SimConnect

/-! ## The two directions of the system -/

-- the main thread comes to its `recv` on the connection that it has
def ClientPc.Serves (pc : ClientPc) : Prop := pc = .clearStop ∨ pc = .spawn ∨ pc = .receive

def ServerPc.Serves (pc : ServerPc) : Prop := pc = .clearStop ∨ pc = .spawn ∨ pc = .receive

instance : DecidablePred ClientPc.Serves := fun _ => inferInstanceAs (Decidable (_ ∨ _))

instance : DecidablePred ServerPc.Serves := fun _ => inferInstanceAs (Decidable (_ ∨ _))

namespace RelayNet

def HeardByServer (s : RelayNet) (c : ℕ) : Prop :=
  c ∈ s.backlog ∨ (s.server.pc.Serves ∧ s.serverSock = some c)

def HeardByClient (s : RelayNet) (c : ℕ) : Prop := s.client.pc.Serves ∧ s.clientSock = some c

def FreshToClient (s : RelayNet) (c : ℕ) : Prop := s.made ≤ c

def FreshToServer (s : RelayNet) (c : ℕ) : Prop := s.made ≤ c ∨ c ∈ s.backlog

def requestPassage (s : RelayNet) : PacketPassage :=
  s.request.passage s.client.pool s.readerSock s.HeardByServer s.FreshToClient

def replyPassage (s : RelayNet) : PacketPassage :=
  s.reply.passage s.server.pool s.replierSock s.HeardByClient s.FreshToServer

/-- The connections are numbered in the order in which they are made. -/
structure Wired (s : RelayNet) : Prop where
  client : ∀ fd c, s.client.shared.conn s.clientConn fd = some c → c < s.made
  server : ∀ fd c, s.server.shared.conn s.serverConn fd = some c → c < s.made ∧ c ∉ s.backlog
  backlog : ∀ c ∈ s.backlog, c < s.made
  nodup : s.backlog.Nodup

/-- A step moves at most one packet in each direction. -/
structure Moves (s s' : RelayNet) : Prop where
  wired : s'.Wired
  request : s.requestPassage.Step s'.requestPassage
  reply : s.replyPassage.Step s'.replyPassage

end RelayNet

/-! ## Threads and descriptors -/

theorem Shared.conn_of_connected {sh : Shared} {conns : ℤ → ℕ} {fd : ℤ} {c : ℕ}
    (h : sh.conn conns fd = some c) : sh.sockets fd = .connected ∧ conns fd = c := by
  unfold conn at h
  split at h
  · next hconnected => exact ⟨hconnected, Option.some.inj h⟩
  · cases h

-- closing a socket, or opening one, makes no connection
theorem Shared.conn_setSocket {sh : Shared} {conns : ℤ → ℕ} {fd fd' : ℤ} {st : SockState} {c : ℕ}
    (hst : st ≠ .connected) (h : (sh.setSocket fd st).conn conns fd' = some c) :
    sh.conn conns fd' = some c := by
  obtain ⟨hconnected, hc⟩ := conn_of_connected h
  by_cases hfd : fd' = fd
  · rw [hfd, sh.setSocket_same] at hconnected
    exact absurd hconnected hst
  · rw [sh.setSocket_other st hfd] at hconnected
    rw [conn, if_pos hconnected, hc]

-- a connection that a descriptor gets leaves the others alone
theorem Shared.conn_connect {sh : Shared} {conns : ℤ → ℕ} {fd fd' : ℤ} {c c' : ℕ}
    (h : (sh.setSocket fd .connected).conn (Function.update conns fd c) fd' = some c') :
    c' = c ∨ sh.conn conns fd' = some c' := by
  obtain ⟨hconnected, hc⟩ := conn_of_connected h
  by_cases hfd : fd' = fd
  · rw [hfd, Function.update_self] at hc
    exact Or.inl hc.symm
  · rw [sh.setSocket_other _ hfd] at hconnected
    rw [Function.update_of_ne hfd] at hc
    exact Or.inr (by rw [conn, if_pos hconnected, hc])

/-- A step of a thread that takes no packet: the pipe and the static packet stay, and a thread that
holds a packet is as it was. -/
structure Pool.Same (pool pool' : Pool) : Prop where
  pipe : pool'.pipe = pool.pipe
  simicsData : pool'.simicsData = pool.simicsData
  holds : ∀ i, pool'.Holds i → pool.Holds i ∧ pool'.workers i = pool.workers i

namespace Pool

theorem Same.refl (pool : Pool) : pool.Same pool := ⟨rfl, rfl, fun _ hi => ⟨hi, rfl⟩⟩

theorem same_set (pool : Pool) (i : ℕ) {w : Worker} (hw : w.pc ≠ .forward) :
    pool.Same (pool.set i w) := by
  refine ⟨rfl, rfl, fun j hj => ?_⟩
  by_cases hji : j = i
  · rw [hji, Holds, set_same] at hj
    exact absurd hj hw
  · rw [Holds, set_other pool w hji] at hj
    exact ⟨hj, set_other pool w hji⟩

theorem same_spawn (pool : Pool) : pool.Same pool.spawn := by
  have h := same_set pool pool.spawned (w := { pc := .start, sock := -1, taken := .zero })
    WorkerPc.noConfusion
  exact ⟨h.pipe, h.simicsData, h.holds⟩

theorem same_step {sh : Shared} {pool pool' : Pool} {a : WorkerAct}
    (h : pool.step sh a = some pool') (ha : ∀ i, a ≠ .deque i) : pool.Same pool' := by
  cases a with
  | start i =>
      obtain ⟨_, rfl⟩ := step_start h
      exact same_set pool i WorkerPc.noConfusion
  | check i =>
      obtain ⟨_, rfl⟩ := step_check h
      apply same_set pool i
      dsimp only
      split
      · exact WorkerPc.noConfusion
      · exact WorkerPc.noConfusion
  | deque i => exact absurd rfl (ha i)
  | send i =>
      obtain ⟨_, rfl⟩ := step_send h
      have hset := same_set pool i (w := { pool.workers i with pc := .check })
        WorkerPc.noConfusion
      exact ⟨hset.pipe, hset.simicsData, hset.holds⟩

theorem deque_cases {sh : Shared} {pool pool' : Pool} {i : ℕ}
    (h : pool.step sh (.deque i) = some pool') :
    ∃ p rest, pool.pipe = p :: rest ∧ pool'.pipe = rest ∧ pool'.simicsData = p ∧ pool'.Holds i ∧
      (∀ j, j ≠ i → pool'.workers j = pool.workers j) ∧
      ∀ j, (pool'.workers j).sock = (pool.workers j).sock := by
  obtain ⟨_, p, rest, hpipe, rfl⟩ := step_deque h
  have hself := set_same pool i { pool.workers i with pc := .forward, taken := p }
  have hothers : ∀ j, j ≠ i →
      (pool.set i { pool.workers i with pc := .forward, taken := p }).workers j = pool.workers j :=
    fun j hj => set_other pool _ hj
  refine ⟨p, rest, hpipe, rfl, rfl, congrArg Worker.pc hself, hothers, fun j => ?_⟩
  by_cases hj : j = i
  · have hsock := congrArg Worker.sock hself
    rw [hj]
    exact hsock
  · exact congrArg Worker.sock (hothers j hj)

end Pool

/-! ## Statements that take no packet -/

/-- No packet is taken and no connection is made, and a main thread that serves a connection has
served it before. -/
structure StepsAside (sh sh' : Shared) (pool pool' : Pool) (serves serves' : Prop) : Prop where
  pool : pool.Same pool'
  conn : ∀ conns fd c, sh'.conn conns fd = some c → sh.conn conns fd = some c
  serves : serves' → serves ∧ sh'.socket = sh.socket

theorem StepsAside.closing {sh : Shared} {pool : Pool} {serves serves' : Prop} {st : SockState}
    (fd fd' : ℤ) (hst : st ≠ .connected) (hserves : ¬ serves') :
    StepsAside sh { sh.setSocket fd st with socket := fd' } pool pool serves serves' :=
  ⟨.refl _, fun _ _ _ hc => Shared.conn_setSocket hst hc, fun hs => absurd hs hserves⟩

abbrev ClientState.Aside (s s' : ClientState) : Prop :=
  StepsAside s.shared s'.shared s.pool s'.pool s.pc.Serves s'.pc.Serves

def ClientAct.Aside : ClientAct → Prop
  | .connect ok => ok = false
  | .reader a => ∀ i, a ≠ .deque i
  | .disconnect _ => False
  | .enqueue _ => False
  | _ => True

theorem clientStep_aside {s s' : ClientState} {a : ClientAct} (ha : a.Aside)
    (h : clientStep s a = some s') : s.Aside s' := by
  cases a with
  | connect ok =>
      cases (show ok = false from ha)
      simp only [clientStep, Bool.false_eq_true, if_false] at h
      split_ifs at h
      cases h
      exact ⟨.refl _, fun _ _ _ hc => hc, fun hs => ⟨hs, rfl⟩⟩
  | clearStop =>
      simp only [clientStep] at h
      split_ifs at h with hpc
      cases h
      exact ⟨.refl _, fun _ _ _ hc => hc, fun _ => ⟨Or.inl hpc, rfl⟩⟩
  | spawn =>
      simp only [clientStep] at h
      split_ifs at h with hpc
      cases h
      exact ⟨Pool.same_spawn _, fun _ _ _ hc => hc, fun _ => ⟨Or.inr (Or.inl hpc), rfl⟩⟩
  | receive ok =>
      simp only [clientStep] at h
      split_ifs at h with hpc
      all_goals
        cases h
        exact ⟨.refl _, fun _ _ _ hc => hc, fun _ => ⟨Or.inr (Or.inr hpc), rfl⟩⟩
  | close =>
      simp only [clientStep] at h
      split_ifs at h
      cases h
      exact .closing _ s.shared.socket (by decide) (show ¬ ClientPc.newSocket.Serves by decide)
  | newSocket fd =>
      have hserves : ¬ ClientPc.setStop.Serves := by decide
      simp only [clientStep] at h
      split_ifs at h
      · cases h
        exact ⟨.refl _, fun _ _ _ hc => hc, fun hs => absurd hs hserves⟩
      · cases h
        exact .closing fd fd (by decide) hserves
  | setStop =>
      have hserves : ¬ ClientPc.connect.Serves := by decide
      simp only [clientStep] at h
      split_ifs at h
      cases h
      exact ⟨.refl _, fun _ _ _ hc => hc, fun hs => absurd hs hserves⟩
  | reader a =>
      obtain ⟨pool, hpool, rfl⟩ := Option.map_eq_some_iff.mp h
      exact ⟨Pool.same_step hpool ha, fun _ _ _ hc => hc, fun hs => ⟨hs, rfl⟩⟩
  | disconnect fd => exact absurd ha not_false
  | enqueue p => exact absurd ha not_false

abbrev ServerState.Aside (s s' : ServerState) : Prop :=
  StepsAside s.shared s'.shared s.pool s'.pool s.pc.Serves s'.pc.Serves

def ServerAct.Aside : ServerAct → Prop
  | .accept _ => False
  | .thread a => ∀ i, a ≠ .deque i
  | .disconnect _ => False
  | .reply _ => False
  | _ => True

theorem serverStep_aside {s s' : ServerState} {a : ServerAct} (ha : a.Aside)
    (h : serverStep s a = some s') : s.Aside s' := by
  cases a with
  | accept fd => exact absurd ha not_false
  | clearStop =>
      simp only [serverStep] at h
      split_ifs at h with hpc
      cases h
      exact ⟨.refl _, fun _ _ _ hc => hc, fun _ => ⟨Or.inl hpc, rfl⟩⟩
  | spawn =>
      simp only [serverStep] at h
      split_ifs at h with hpc
      cases h
      exact ⟨Pool.same_spawn _, fun _ _ _ hc => hc, fun _ => ⟨Or.inr (Or.inl hpc), rfl⟩⟩
  | receive ok =>
      simp only [serverStep] at h
      split_ifs at h with hpc
      all_goals
        cases h
        exact ⟨.refl _, fun _ _ _ hc => hc, fun _ => ⟨Or.inr (Or.inr hpc), rfl⟩⟩
  | close =>
      simp only [serverStep] at h
      split_ifs at h
      cases h
      exact .closing _ s.shared.socket (by decide) (show ¬ ServerPc.resetSock.Serves by decide)
  | resetSock =>
      have hserves : ¬ ServerPc.clearAgain.Serves := by decide
      simp only [serverStep] at h
      split_ifs at h
      cases h
      exact ⟨.refl _, fun _ _ _ hc => hc, fun hs => absurd hs hserves⟩
  | clearAgain =>
      have hserves : ¬ ServerPc.setStop.Serves := by decide
      simp only [serverStep] at h
      split_ifs at h
      cases h
      exact ⟨.refl _, fun _ _ _ hc => hc, fun hs => absurd hs hserves⟩
  | setStop =>
      have hserves : ¬ ServerPc.accept.Serves := by decide
      simp only [serverStep] at h
      split_ifs at h
      cases h
      exact ⟨.refl _, fun _ _ _ hc => hc, fun hs => absurd hs hserves⟩
  | thread a =>
      obtain ⟨pool, hpool, rfl⟩ := Option.map_eq_some_iff.mp h
      exact ⟨Pool.same_step hpool ha, fun _ _ _ hc => hc, fun hs => ⟨hs, rfl⟩⟩
  | disconnect fd => exact absurd ha not_false
  | reply p => exact absurd ha not_false

/-! ## What a step moves -/

namespace RelayNet

variable {s s' : RelayNet}

section Client

variable {client : ClientState}

theorem Wired.client_aside (h : s.Wired) (haside : s.client.Aside client) (reply : NetDirection) :
    Wired { s with client, reply } :=
  ⟨fun fd c hc => h.client fd c (haside.conn _ fd c hc), h.server, h.backlog, h.nodup⟩

theorem request_client (haside : s.client.Aside client) (reply : NetDirection) :
    s.requestPassage.Step (requestPassage { s with client, reply }) := by
  have hpool := haside.pool
  refine NetDirection.passage_control hpool.pipe hpool.simicsData (fun i hi => (hpool.holds i hi).1)
    (fun i c hi hc => Or.inl ?_) (fun _ hc => Or.inl hc) fun _ hc => hc
  rw [readerSock, (hpool.holds i hi).2] at hc
  exact haside.conn _ _ c hc

theorem moves_client (h : s.Wired) (haside : s.client.Aside client) :
    s.Moves { s with client } where
  wired := h.client_aside haside s.reply
  request := request_client haside s.reply
  reply := by
    refine NetDirection.passage_control rfl rfl (fun _ hi => hi) (fun _ _ _ hc => Or.inl hc)
      (fun c hc => Or.inl ?_) fun _ hc => hc
    obtain ⟨hpc, hsocket⟩ := haside.serves hc.1
    have hsock := hc.2
    rw [clientSock, hsocket] at hsock
    exact ⟨hpc, haside.conn _ _ c hsock⟩

theorem moves_connect (h : s.Wired)
    (hclient : clientStep s.client (.connect true) = some client) :
    s.Moves { s with
      client
      clientConn := Function.update s.clientConn s.client.shared.socket s.made
      made := s.made + 1
      backlog := s.backlog ++ [s.made] } := by
  simp only [clientStep, if_true] at hclient
  split_ifs at hclient with hpc hidle
  cases hclient
  have hconn : ∀ fd c, ({ s.client.shared.setSocket s.client.shared.socket .connected with
      accepted := s.client.shared.socket } : Shared).conn
        (Function.update s.clientConn s.client.shared.socket s.made) fd = some c →
      c = s.made ∨ s.client.shared.conn s.clientConn fd = some c :=
    fun fd c hc => Shared.conn_connect hc
  refine ⟨⟨fun fd c hc => ?_, fun fd c hc => ?_, fun c hc => ?_, ?_⟩, ?_, ?_⟩
  · rcases hconn fd c hc with rfl | hold
    · exact Nat.lt_succ_self _
    · exact Nat.lt_succ_of_lt (h.client fd c hold)
  · obtain ⟨hlt, hmem⟩ := h.server fd c hc
    refine ⟨Nat.lt_succ_of_lt hlt, fun hnew => ?_⟩
    rcases List.mem_append.mp hnew with hold | hlast
    · exact hmem hold
    · exact absurd (List.mem_singleton.mp hlast) (Nat.ne_of_lt hlt)
  · rcases List.mem_append.mp hc with hold | hlast
    · exact Nat.lt_succ_of_lt (h.backlog c hold)
    · rw [List.mem_singleton.mp hlast]
      exact Nat.lt_succ_self _
  · refine List.nodup_append.mpr ⟨h.nodup, List.nodup_singleton _, fun c hc c' hc' => ?_⟩
    rw [List.mem_singleton.mp hc']
    exact Nat.ne_of_lt (h.backlog c hc)
  · refine NetDirection.passage_control rfl rfl (fun _ hi => hi) (fun i c _ hc => ?_)
      (fun c hc => ?_) fun c hc => Nat.le_of_succ_le hc
    · rcases hconn _ c hc with rfl | hold
      · exact Or.inr (Nat.le_refl s.made)
      · exact Or.inl hold
    · rcases hc with hmem | hmain
      · rcases List.mem_append.mp hmem with hold | hlast
        · exact Or.inl (Or.inl hold)
        · exact Or.inr (Nat.le_of_eq (List.mem_singleton.mp hlast).symm)
      · exact Or.inl (Or.inr hmain)
  · refine NetDirection.passage_control rfl rfl (fun _ hi => hi) (fun _ _ _ hc => Or.inl hc)
      (fun c hc => ?_) fun c hc => ?_
    · -- the main thread's socket was not connected before
      rcases hconn s.client.shared.socket c hc.2 with rfl | hold
      · exact Or.inr (Or.inl (Nat.le_refl s.made))
      · rw [(Shared.conn_of_connected hold).1] at hidle
        cases hidle
    · rcases hc with hle | hmem
      · exact Or.inl (Nat.le_of_succ_le hle)
      · rcases List.mem_append.mp hmem with hold | hlast
        · exact Or.inr hold
        · exact Or.inl (Nat.le_of_eq (List.mem_singleton.mp hlast).symm)

theorem moves_reader_deque {i : ℕ} {pool : Pool} (h : s.Wired)
    (hpool : s.client.pool.step s.client.shared (.deque i) = some pool) :
    s.Moves { s with client := { s.client with pool }, request := s.request.beginSend i } := by
  obtain ⟨p, rest, hpipe, hpipe', hdata, hholds, hothers, hsock⟩ := Pool.deque_cases hpool
  refine ⟨⟨h.client, h.server, h.backlog, h.nodup⟩, ?_, .refl _ _⟩
  exact NetDirection.passage_deque hpipe hpipe' hdata hholds hothers fun j => by
    simp only [readerSock, hsock]

theorem moves_clientEffect {a : ClientAct} (h : s.Wired)
    (hclient : clientStep s.client a = some client) (hstep : clientEffect s client a = some s') :
    s.Moves s' := by
  have haside := fun ha : a.Aside => clientStep_aside ha hclient
  cases a with
  | connect ok =>
      cases ok with
      | true =>
          cases hstep
          exact moves_connect h hclient
      | false =>
          cases hstep
          exact moves_client h (haside rfl)
  | receive ok =>
      obtain ⟨reply, hreply, rfl⟩ := Option.map_eq_some_iff.mp hstep
      cases ok with
      | true =>
          simp only [clientStep, if_true] at hclient
          split_ifs at hclient with hpc
          have hsame : client = s.client := by
            rw [← Option.some.inj hclient, ← hpc]
          subst hsame
          exact ⟨h.client_aside (haside trivial) reply, request_client (haside trivial) reply,
            NetDirection.passage_handOn hreply⟩
      | false =>
          obtain rfl := NetDirection.handOn_false hreply
          exact moves_client h (haside trivial)
  | reader a =>
      cases a with
      | deque i =>
          obtain ⟨pool, hpool, rfl⟩ := Option.map_eq_some_iff.mp hclient
          cases hstep
          exact moves_reader_deque h hpool
      | start i =>
          cases hstep
          exact moves_client h (haside fun _ => WorkerAct.noConfusion)
      | check i =>
          cases hstep
          exact moves_client h (haside fun _ => WorkerAct.noConfusion)
      | send i =>
          cases hstep
          exact moves_client h (haside fun _ => WorkerAct.noConfusion)
  | clearStop =>
      cases hstep
      exact moves_client h (haside trivial)
  | spawn =>
      cases hstep
      exact moves_client h (haside trivial)
  | close =>
      cases hstep
      exact moves_client h (haside trivial)
  | newSocket fd =>
      cases hstep
      exact moves_client h (haside trivial)
  | setStop =>
      cases hstep
      exact moves_client h (haside trivial)
  | disconnect fd => cases hstep
  | enqueue p => cases hstep

end Client

section Server

variable {server : ServerState}

theorem Wired.server_aside (h : s.Wired) (haside : s.server.Aside server) (request : NetDirection) :
    Wired { s with server, request } :=
  ⟨h.client, fun fd c hc => h.server fd c (haside.conn _ fd c hc), h.backlog, h.nodup⟩

theorem reply_server (haside : s.server.Aside server) (request : NetDirection) :
    s.replyPassage.Step (replyPassage { s with server, request }) := by
  have hpool := haside.pool
  refine NetDirection.passage_control hpool.pipe hpool.simicsData (fun i hi => (hpool.holds i hi).1)
    (fun i c hi hc => Or.inl ?_) (fun _ hc => Or.inl hc) fun _ hc => hc
  rw [replierSock, (hpool.holds i hi).2] at hc
  exact haside.conn _ _ c hc

theorem moves_server (h : s.Wired) (haside : s.server.Aside server) :
    s.Moves { s with server } where
  wired := h.server_aside haside s.request
  request := by
    refine NetDirection.passage_control rfl rfl (fun _ hi => hi) (fun _ _ _ hc => Or.inl hc)
      (fun c hc => Or.inl ?_) fun _ hc => hc
    rcases hc with hmem | ⟨hpc, hsock⟩
    · exact Or.inl hmem
    · obtain ⟨hpc, hsocket⟩ := haside.serves hpc
      rw [serverSock, hsocket] at hsock
      exact Or.inr ⟨hpc, haside.conn _ _ c hsock⟩
  reply := reply_server haside s.request

theorem moves_accept {fd : ℤ} {c : ℕ} {rest : List ℕ} (h : s.Wired)
    (hserver : serverStep s.server (.accept fd) = some server) (hbacklog : s.backlog = c :: rest) :
    s.Moves { s with
      server
      serverConn := Function.update s.serverConn fd c
      backlog := rest } := by
  simp only [serverStep] at hserver
  split_ifs at hserver
  cases hserver
  have hconn : ∀ fd' c', ({ s.server.shared.setSocket fd .connected with
      socket := fd, accepted := fd } : Shared).conn
        (Function.update s.serverConn fd c) fd' = some c' →
      c' = c ∨ s.server.shared.conn s.serverConn fd' = some c' :=
    fun fd' c' hc => Shared.conn_connect hc
  have hrest : ∀ c' ∈ rest, c' ∈ s.backlog := by
    intro c' hc'
    rw [hbacklog]
    exact List.mem_cons_of_mem c hc'
  have hfirst : c ∈ s.backlog := by
    rw [hbacklog]
    exact List.mem_cons_self
  have hnodup := h.nodup
  rw [hbacklog, List.nodup_cons] at hnodup
  refine ⟨⟨h.client, fun fd' c' hc => ?_, fun c' hc' => h.backlog c' (hrest c' hc'), hnodup.2⟩,
    ?_, ?_⟩
  · rcases hconn fd' c' hc with rfl | hold
    · exact ⟨h.backlog c' hfirst, hnodup.1⟩
    · obtain ⟨hlt, hmem⟩ := h.server fd' c' hold
      exact ⟨hlt, fun hc' => hmem (hrest c' hc')⟩
  · refine NetDirection.passage_control rfl rfl (fun _ hi => hi) (fun _ _ _ hc => Or.inl hc)
      (fun c' hc => Or.inl (Or.inl ?_)) fun _ hc => hc
    rcases hc with hmem | ⟨_, hsock⟩
    · exact hrest c' hmem
    · -- the accepted connection comes from the backlog
      rw [serverSock, Shared.conn, if_pos (Shared.setSocket_same _ fd .connected)] at hsock
      have hc' : Function.update s.serverConn fd c fd = c' := Option.some.inj hsock
      rw [Function.update_self] at hc'
      rw [← hc']
      exact hfirst
  · refine NetDirection.passage_control rfl rfl (fun _ hi => hi) (fun i c' _ hc => ?_)
      (fun _ hc => Or.inl hc) fun c' hc => hc.imp_right (hrest c')
    rcases hconn _ c' hc with rfl | hold
    · exact Or.inr (Or.inr hfirst)
    · exact Or.inl hold

theorem moves_thread_deque {i : ℕ} {pool : Pool} (h : s.Wired)
    (hpool : s.server.pool.step s.server.shared (.deque i) = some pool) :
    s.Moves { s with server := { s.server with pool }, reply := s.reply.beginSend i } := by
  obtain ⟨p, rest, hpipe, hpipe', hdata, hholds, hothers, hsock⟩ := Pool.deque_cases hpool
  refine ⟨⟨h.client, h.server, h.backlog, h.nodup⟩, .refl _ _, ?_⟩
  exact NetDirection.passage_deque hpipe hpipe' hdata hholds hothers fun j => by
    simp only [replierSock, hsock]

theorem moves_serverEffect {a : ServerAct} (h : s.Wired)
    (hserver : serverStep s.server a = some server) (hstep : serverEffect s server a = some s') :
    s.Moves s' := by
  have haside := fun ha : a.Aside => serverStep_aside ha hserver
  cases a with
  | accept fd =>
      simp only [serverEffect] at hstep
      split at hstep
      · next c rest hbacklog =>
          cases hstep
          exact moves_accept h hserver hbacklog
      · cases hstep
  | receive ok =>
      obtain ⟨request, hrequest, rfl⟩ := Option.map_eq_some_iff.mp hstep
      cases ok with
      | true =>
          simp only [serverStep, if_true] at hserver
          split_ifs at hserver with hpc
          have hsame : server = s.server := by
            rw [← Option.some.inj hserver, ← hpc]
          subst hsame
          exact ⟨h.server_aside (haside trivial) request, NetDirection.passage_handOn hrequest,
            reply_server (haside trivial) request⟩
      | false =>
          obtain rfl := NetDirection.handOn_false hrequest
          exact moves_server h (haside trivial)
  | thread a =>
      cases a with
      | deque i =>
          obtain ⟨pool, hpool, rfl⟩ := Option.map_eq_some_iff.mp hserver
          cases hstep
          exact moves_thread_deque h hpool
      | start i =>
          cases hstep
          exact moves_server h (haside fun _ => WorkerAct.noConfusion)
      | check i =>
          cases hstep
          exact moves_server h (haside fun _ => WorkerAct.noConfusion)
      | send i =>
          cases hstep
          exact moves_server h (haside fun _ => WorkerAct.noConfusion)
  | clearStop =>
      cases hstep
      exact moves_server h (haside trivial)
  | spawn =>
      cases hstep
      exact moves_server h (haside trivial)
  | close =>
      cases hstep
      exact moves_server h (haside trivial)
  | resetSock =>
      cases hstep
      exact moves_server h (haside trivial)
  | clearAgain =>
      cases hstep
      exact moves_server h (haside trivial)
  | setStop =>
      cases hstep
      exact moves_server h (haside trivial)
  | disconnect fd => cases hstep
  | reply p => cases hstep

end Server

/-! ## What a call on a socket moves -/

theorem moves_sendRequest {i k : ℕ} {request : NetDirection} (h : s.Wired)
    (hsend : s.request.send s.client.pool (s.readerSock i) i k = some request) :
    s.Moves { s with request } where
  wired := ⟨h.client, h.server, h.backlog, h.nodup⟩
  request := NetDirection.passage_send hsend fun c hc =>
    Nat.not_le_of_lt (h.client _ c hc)
  reply := .refl _ _

theorem moves_sendReply {i k : ℕ} {reply : NetDirection} (h : s.Wired)
    (hsend : s.reply.send s.server.pool (s.replierSock i) i k = some reply) :
    s.Moves { s with reply } where
  wired := ⟨h.client, h.server, h.backlog, h.nodup⟩
  request := .refl _ _
  reply := NetDirection.passage_send hsend fun c hc =>
    not_or.mpr ⟨Nat.not_le_of_lt (h.server _ c hc).1, (h.server _ c hc).2⟩

theorem moves_recvRequest {k : ℕ} {request : NetDirection} {whole : Bool} (h : s.Wired)
    (hpc : s.server.pc = .receive) (hrecv : s.request.recv s.serverSock k = some (request, whole))
    (hstep : (if whole then some { s with request }
      else (serverStep s.server (.receive false)).map fun server =>
        { s with server, request }) = some s') : s.Moves s' := by
  have hheard : ∀ c, s.serverSock = some c → s.HeardByServer c :=
    fun c hc => Or.inr ⟨Or.inr (Or.inr hpc), hc⟩
  cases whole with
  | true =>
      cases hstep
      exact ⟨⟨h.client, h.server, h.backlog, h.nodup⟩,
        NetDirection.passage_recvWhole hrecv hheard, .refl _ _⟩
  | false =>
      simp only [serverStep, hpc, if_true, Bool.false_eq_true, if_false, Option.map_some] at hstep
      cases hstep
      have haside := serverStep_aside (a := .receive false) trivial (if_pos hpc)
      refine ⟨h.server_aside haside request, NetDirection.passage_recvShort hrecv fun c hc => ?_,
        reply_server haside request⟩
      -- a connection that waits for `accept` is not the one that was closed
      rcases hc with hmem | ⟨hserves, _⟩
      · exact ⟨Or.inl hmem, fun hsock => (h.server _ c hsock).2 hmem⟩
      · exact absurd (show ServerPc.close.Serves from hserves) (by decide)

theorem moves_recvReply {k : ℕ} {reply : NetDirection} {whole : Bool} (h : s.Wired)
    (hpc : s.client.pc = .receive) (hrecv : s.reply.recv s.clientSock k = some (reply, whole))
    (hstep : (if whole then some { s with reply }
      else (clientStep s.client (.receive false)).map fun client =>
        { s with client, reply }) = some s') : s.Moves s' := by
  have hheard : ∀ c, s.clientSock = some c → s.HeardByClient c :=
    fun c hc => ⟨Or.inr (Or.inr hpc), hc⟩
  cases whole with
  | true =>
      cases hstep
      exact ⟨⟨h.client, h.server, h.backlog, h.nodup⟩, .refl _ _,
        NetDirection.passage_recvWhole hrecv hheard⟩
  | false =>
      simp only [clientStep, hpc, if_true, Bool.false_eq_true, if_false, Option.map_some] at hstep
      cases hstep
      have haside := clientStep_aside (a := .receive false) trivial (if_pos hpc)
      exact ⟨h.client_aside haside reply, request_client haside reply,
        NetDirection.passage_recvShort hrecv fun _ hc =>
          absurd (show ClientPc.close.Serves from hc.1) (by decide)⟩

/-- Every step of the two processes moves at most one packet in each direction. -/
theorem moves_netStep {a : NetAct} (h : s.Wired) (hstep : netStep s a = some s') : s.Moves s' := by
  cases a with
  | client a =>
      obtain ⟨client, hclient, heffect⟩ := Option.bind_eq_some_iff.mp hstep
      exact moves_clientEffect h hclient heffect
  | server a =>
      obtain ⟨server, hserver, heffect⟩ := Option.bind_eq_some_iff.mp hstep
      exact moves_serverEffect h hserver heffect
  | sendRequest i k =>
      obtain ⟨request, hsend, rfl⟩ := Option.map_eq_some_iff.mp hstep
      exact moves_sendRequest h hsend
  | sendReply i k =>
      obtain ⟨reply, hsend, rfl⟩ := Option.map_eq_some_iff.mp hstep
      exact moves_sendReply h hsend
  | recvRequest k =>
      simp only [netStep] at hstep
      split_ifs at hstep with hpc
      obtain ⟨⟨request, whole⟩, hrecv, hrest⟩ := Option.bind_eq_some_iff.mp hstep
      exact moves_recvRequest h hpc hrecv hrest
  | recvReply k =>
      simp only [netStep] at hstep
      split_ifs at hstep with hpc
      obtain ⟨⟨reply, whole⟩, hrecv, hrest⟩ := Option.bind_eq_some_iff.mp hstep
      exact moves_recvReply h hpc hrecv hrest

end RelayNet

end SimConnect
