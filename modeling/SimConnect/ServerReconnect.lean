import SimConnect.Workers

/-!
# cxl_tcp_server_thread: one reply thread per connection

The server spawns a reply thread for every client it accepts and stops the old one only through
`stop_reply_thread`, which accepting the next client clears again.  There is one reply thread,
bound to the live connection, as long as no client is accepted beside a reply thread that is still
alive.
-/

open SimConnect.Foundation

namespace SimConnect

/-! ## The step function -/

inductive ServerPc
  | accept
  | clearStop
  | spawn
  | receive
  | close
  | resetSock
  | clearAgain
  | setStop
  deriving DecidableEq

-- shared.socket is cxl_clientsock
structure ServerState where
  pc : ServerPc
  shared : Shared
  pool : Pool

/-- The statements of `cxl_tcp_server_thread`, the steps of its reply threads, and what the clients
and the RTL do.  `CXL_AcceptClient` tries again after a failed `accept`, and descriptor 0 is in use;
no statement sets `server_stopflag`. -/
inductive ServerAct
  | accept (fd : ℤ)
  | clearStop
  | spawn
  | receive (ok : Bool)
  | close
  | resetSock
  | clearAgain
  | setStop
  | thread (a : WorkerAct)
  | disconnect (fd : ℤ)
  | reply (p : SimicsTransaction)

def serverStep (s : ServerState) : ServerAct → Option ServerState
  | .accept fd =>
      if s.pc = .accept ∧ 0 < fd ∧ s.shared.sockets fd = .closed then
        some
          { s with
            pc := .clearStop
            shared := { s.shared.setSocket fd .connected with socket := fd, accepted := fd } }
      else none
  | .clearStop =>
      if s.pc = .clearStop then
        some { s with pc := .spawn, shared := { s.shared with stop := false } }
      else none
  | .spawn =>
      if s.pc = .spawn then some { s with pc := .receive, pool := s.pool.spawn } else none
  | .receive ok =>
      -- a full packet goes to DumpForSystemVerilogFifoInPut, and the loop goes on
      if s.pc = .receive then some { s with pc := if ok then .receive else .close } else none
  | .close =>
      if s.pc = .close then
        some { s with pc := .resetSock, shared := s.shared.setSocket s.shared.socket .closed }
      else none
  | .resetSock =>
      if s.pc = .resetSock then
        some { s with pc := .clearAgain, shared := { s.shared with socket := -1 } }
      else none
  | .clearAgain =>
      -- the disconnect branch clears the flag before the statement after the loop sets it
      if s.pc = .clearAgain then
        some { s with pc := .setStop, shared := { s.shared with stop := false } }
      else none
  | .setStop =>
      if s.pc = .setStop then
        some { s with pc := .accept, shared := { s.shared with stop := true } }
      else none
  | .thread a => (s.pool.step s.shared a).map fun pool => { s with pool }
  | .disconnect fd =>
      if s.shared.sockets fd = .connected then
        some { s with shared := s.shared.setSocket fd .idle }
      else none
  | .reply p => some { s with pool := s.pool.enqueue p }

/-- The server before its first client. -/
def serverInit (stop : Bool) (simicsData : SimicsTransaction) (pipe : List SimicsTransaction) :
    ServerState where
  pc := .accept
  shared := { stop, socket := -1, sockets := fun _ => .closed, accepted := -1 }
  pool := .empty simicsData pipe

/-! ## One reply thread -/

/-- What the server promises in a state: one reply thread at most, every dequeue so far by a thread
bound to the connection accepted last and open, no packet overwritten between its dequeue and its
send, and no send to a closed connection. -/
structure ServerState.OneReplyThread (s : ServerState) : Prop where
  alive : ∀ i j, s.pool.Alive i → s.pool.Alive j → i = j
  took : ∀ sock accepted st, .took sock accepted st ∈ s.pool.log →
    sock = accepted ∧ st = .connected
  held : ∀ i, s.pool.Holds i → (s.pool.workers i).taken = s.pool.simicsData
  sent : ∀ taken buffer st, .sent taken buffer st ∈ s.pool.log →
    buffer = taken ∧ st = .connected

/-- A client is accepted only when no reply thread is alive, a reply is taken only while the
connection accepted last is up, and a connection goes down only while no thread that is bound to it
holds a reply. -/
def ServerState.Careful (s : ServerState) : ServerAct → Prop
  | .accept _ => ∀ i, ¬ s.pool.Alive i
  | .thread (.deque _) => s.shared.sockets s.shared.accepted = .connected
  | .disconnect fd => ∀ i, s.pool.Holds i → (s.pool.workers i).sock ≠ fd
  | .close => ∀ i, s.pool.Holds i → (s.pool.workers i).sock ≠ s.shared.socket
  | _ => True

/-- The invariant: while the connection accepted last is up, the main thread serves it and the reply
thread is bound to it. -/
structure ServerState.Inv (s : ServerState) : Prop where
  exclusive : s.pool.Exclusive s.shared
  alive : ∀ i j, s.pool.Alive i → s.pool.Alive j → i = j
  took : ∀ sock accepted st, .took sock accepted st ∈ s.pool.log →
    sock = accepted ∧ st = .connected
  fresh : s.pc = .clearStop ∨ s.pc = .spawn → ∀ i, ¬ s.pool.Alive i
  serves : s.shared.sockets s.shared.accepted = .connected →
    s.shared.socket = s.shared.accepted ∧
      (s.pc = .clearStop ∨ s.pc = .spawn ∨ s.pc = .receive ∨ s.pc = .close)
  bound : s.shared.sockets s.shared.accepted = .connected → ∀ i, s.pool.Alive i →
    (s.pool.workers i).pc = .start ∨ (s.pool.workers i).sock = s.shared.accepted

theorem ServerState.Inv.oneReplyThread {s : ServerState} (h : s.Inv) : s.OneReplyThread :=
  ⟨h.alive, h.took, h.exclusive.data, h.exclusive.sent⟩

theorem serverInit_inv (stop : Bool) (simicsData : SimicsTransaction)
    (pipe : List SimicsTransaction) : (serverInit stop simicsData pipe).Inv where
  exclusive := Pool.Exclusive.empty _ simicsData pipe
  alive := fun _ _ hi => absurd rfl hi
  took := fun _ _ _ h => absurd h List.not_mem_nil
  fresh := by
    intro h
    rcases h with h | h
    · exact absurd h ServerPc.noConfusion
    · exact absurd h ServerPc.noConfusion
  serves := fun h => absurd h SockState.noConfusion
  bound := fun h => absurd h SockState.noConfusion

section Step

variable {s s' : ServerState}

-- a statement of the main thread that touches no socket and leaves a state without connection
theorem ServerState.Inv.idle (h : s.Inv) (hdown : s.shared.sockets s.shared.accepted ≠ .connected)
    {pc : ServerPc} {sh : Shared} (hpc : pc ≠ .clearStop ∧ pc ≠ .spawn)
    (hsockets : sh.sockets = s.shared.sockets) (haccepted : sh.accepted = s.shared.accepted) :
    ServerState.Inv { s with pc, shared := sh } where
  exclusive := h.exclusive.shared fun i hi => by
    rw [hsockets]
    exact h.exclusive.connected i hi
  alive := h.alive
  took := h.took
  fresh := fun hfresh => absurd hfresh (not_or.mpr hpc)
  serves := fun hup => absurd (by rwa [hsockets, haccepted] at hup) hdown
  bound := fun hup => absurd (by rwa [hsockets, haccepted] at hup) hdown

theorem ServerState.Inv.down (h : s.Inv)
    (hpc : s.pc ≠ .clearStop ∧ s.pc ≠ .spawn ∧ s.pc ≠ .receive ∧ s.pc ≠ .close) :
    s.shared.sockets s.shared.accepted ≠ .connected := by
  intro hup
  rcases (h.serves hup).2 with hp | hp | hp | hp
  · exact hpc.1 hp
  · exact hpc.2.1 hp
  · exact hpc.2.2.1 hp
  · exact hpc.2.2.2 hp

theorem serverStep_accept {fd : ℤ} (h : s.Inv) (hok : s.Careful (.accept fd))
    (hstep : serverStep s (.accept fd) = some s') : s'.Inv := by
  simp only [serverStep] at hstep
  split_ifs at hstep
  cases hstep
  -- the old threads are gone, so the new connection starts with a clean slate
  exact
    { exclusive := h.exclusive.shared_of_none fun i hi => hok i hi.alive
      alive := h.alive
      took := h.took
      fresh := fun _ => hok
      serves := fun _ => ⟨rfl, Or.inl rfl⟩
      bound := fun _ i hi => absurd hi (hok i) }

theorem serverStep_spawn (h : s.Inv) (hstep : serverStep s .spawn = some s') : s'.Inv := by
  simp only [serverStep] at hstep
  split_ifs at hstep with hpc
  cases hstep
  have hnone := h.fresh (Or.inr hpc)
  have hnew : ∀ i, s.pool.spawn.Alive i → i = s.pool.spawned := fun i hi =>
    (Pool.spawn_alive hi).resolve_right (hnone i)
  refine ⟨h.exclusive.spawn, fun i j hi hj => (hnew i hi).trans (hnew j hj).symm, h.took,
    ?_, ?_, ?_⟩
  · intro hfresh
    rcases hfresh with hp | hp
    · exact absurd hp ServerPc.noConfusion
    · exact absurd hp ServerPc.noConfusion
  · exact fun hup => ⟨(h.serves hup).1, Or.inr (Or.inr (Or.inl rfl))⟩
  · intro _ i hi
    rw [hnew i hi]
    exact Or.inl (Pool.spawn_workers_spawned s.pool)

theorem serverStep_close (h : s.Inv) (hok : s.Careful .close)
    (hstep : serverStep s .close = some s') : s'.Inv := by
  simp only [serverStep] at hstep
  split_ifs at hstep
  cases hstep
  have hexclusive := h.exclusive.setSocket s.shared.socket .closed hok
  -- the connection accepted last was the one closed, if it was up at all
  have hdown : (s.shared.setSocket s.shared.socket .closed).sockets s.shared.accepted ≠
      .connected := by
    by_cases heq : s.shared.accepted = s.shared.socket
    · rw [heq, Shared.setSocket_same]
      exact SockState.noConfusion
    · rw [Shared.setSocket_other _ _ heq]
      exact fun hup => heq (h.serves hup).1.symm
  refine ⟨hexclusive, h.alive, h.took, ?_, fun hup => absurd hup hdown,
    fun hup => absurd hup hdown⟩
  intro hfresh
  rcases hfresh with hp | hp
  · exact absurd hp ServerPc.noConfusion
  · exact absurd hp ServerPc.noConfusion

theorem serverStep_thread {a : WorkerAct} (h : s.Inv) (hok : s.Careful (.thread a))
    (hstep : serverStep s (.thread a) = some s') : s'.Inv := by
  obtain ⟨pool', hpool, rfl⟩ := Option.map_eq_some_iff.mp hstep
  obtain ⟨⟨i, hi⟩, halive⟩ := Pool.step_alive hpool
  -- a thread that dequeues in a careful step is bound to the connection, which is up
  have hdeque : ∀ i, a = .deque i → (s.pool.workers i).pc = .deque →
      (s.pool.workers i).sock = s.shared.accepted ∧
        s.shared.sockets s.shared.accepted = .connected := by
    intro i ha hpc
    subst ha
    have hi : s.pool.Alive i := by rw [Pool.Alive, hpc]; exact WorkerPc.noConfusion
    exact ⟨(h.bound hok i hi).resolve_left (by rw [hpc]; exact WorkerPc.noConfusion), hok⟩
  refine ⟨?_, fun j k hj hk => h.alive j k (halive j hj) (halive k hk), ?_, ?_, h.serves, ?_⟩
  · refine h.exclusive.step hpool fun i ha => ?_
    subst ha
    obtain ⟨hpc, _⟩ := Pool.step_deque hpool
    obtain ⟨hsock, hup⟩ := hdeque i rfl hpc
    have hi : s.pool.Alive i := by rw [Pool.Alive, hpc]; exact WorkerPc.noConfusion
    refine ⟨by rw [hsock]; exact hup, fun j hj => ?_⟩
    have hji := h.alive j i hj.alive hi
    rw [hji, Pool.Holds, hpc] at hj
    exact absurd hj WorkerPc.noConfusion
  · intro sock accepted st hmem
    rcases Pool.step_took hpool hmem with hold | ⟨i, ha, hpc, hsock, haccepted, hst⟩
    · exact h.took sock accepted st hold
    · obtain ⟨hbound, hup⟩ := hdeque i ha hpc
      have heq : sock = s.shared.accepted := hsock.trans hbound
      exact ⟨heq.trans haccepted.symm, by rw [hst, heq, hup]⟩
  · intro hfresh
    exact absurd hi (h.fresh hfresh i)
  · intro hup j hj
    have hsocket := (h.serves hup).1
    have hbound := Pool.step_bound hpool (fun i hi => by rw [hsocket]; exact h.bound hup i hi) j hj
    rwa [hsocket] at hbound

theorem serverStep_disconnect {fd : ℤ} (h : s.Inv) (hok : s.Careful (.disconnect fd))
    (hstep : serverStep s (.disconnect fd) = some s') : s'.Inv := by
  simp only [serverStep] at hstep
  split_ifs at hstep
  cases hstep
  -- if the connection accepted last is still up, it is not the one that went down
  have hstill : (s.shared.setSocket fd .idle).sockets s.shared.accepted = .connected →
      s.shared.sockets s.shared.accepted = .connected := by
    intro hup
    by_cases heq : s.shared.accepted = fd
    · rw [heq, Shared.setSocket_same] at hup
      exact absurd hup SockState.noConfusion
    · rwa [Shared.setSocket_other _ _ heq] at hup
  exact
    { exclusive := h.exclusive.setSocket fd .idle hok
      alive := h.alive
      took := h.took
      fresh := h.fresh
      serves := fun hup => h.serves (hstill hup)
      bound := fun hup => h.bound (hstill hup) }

theorem serverStep_inv {a : ServerAct} (h : s.Inv) (hok : s.Careful a)
    (hstep : serverStep s a = some s') : s'.Inv := by
  cases a with
  | accept fd => exact serverStep_accept h hok hstep
  | clearStop =>
      simp only [serverStep] at hstep
      split_ifs at hstep with hpc
      cases hstep
      exact
        { exclusive := h.exclusive.shared h.exclusive.connected
          alive := h.alive
          took := h.took
          fresh := fun _ => h.fresh (Or.inl hpc)
          serves := fun hup => ⟨(h.serves hup).1, Or.inr (Or.inl rfl)⟩
          bound := h.bound }
  | spawn => exact serverStep_spawn h hstep
  | receive ok =>
      simp only [serverStep] at hstep
      split_ifs at hstep with hpc hok'
      all_goals
        cases hstep
        refine ⟨h.exclusive, h.alive, h.took, fun hfresh => ?_, fun hup => ⟨(h.serves hup).1, ?_⟩,
          h.bound⟩
        · rcases hfresh with hp | hp
          · exact absurd hp ServerPc.noConfusion
          · exact absurd hp ServerPc.noConfusion
        · simp
  | close => exact serverStep_close h hok hstep
  | resetSock =>
      simp only [serverStep] at hstep
      split_ifs at hstep with hpc
      cases hstep
      exact h.idle (h.down (by rw [hpc]; decide)) (by decide) rfl rfl
  | clearAgain =>
      simp only [serverStep] at hstep
      split_ifs at hstep with hpc
      cases hstep
      exact h.idle (h.down (by rw [hpc]; decide)) (by decide) rfl rfl
  | setStop =>
      simp only [serverStep] at hstep
      split_ifs at hstep with hpc
      cases hstep
      exact h.idle (h.down (by rw [hpc]; decide)) (by decide) rfl rfl
  | thread a => exact serverStep_thread h hok hstep
  | disconnect fd => exact serverStep_disconnect h hok hstep
  | reply p =>
      cases hstep
      exact
        { exclusive := h.exclusive.enqueue p
          alive := h.alive
          took := h.took
          fresh := h.fresh
          serves := h.serves
          bound := h.bound }

end Step

/-- In every run that meets the condition at each step, every state has one reply thread at most,
bound to the live connection. -/
theorem server_one_reply_thread {stop : Bool} {simicsData : SimicsTransaction}
    {pipe : List SimicsTransaction} {s : ServerState}
    (h : RunsTo (stepOf serverStep) ServerState.Careful (serverInit stop simicsData pipe) s) :
    s.OneReplyThread := by
  have hinv : s.Inv := by
    apply h.invariant (serverInit_inv stop simicsData pipe)
    intro s a s' hs hok hstep
    exact serverStep_inv hs hok hstep
  exact hinv.oneReplyThread

def firstReply : SimicsTransaction := { SimicsTransaction.zero with packetNumber := 1 }

def secondReply : SimicsTransaction := { SimicsTransaction.zero with packetNumber := 2 }

-- a reply over each of two connections; the first thread sees the flag before the second accept
def reconnectedServer : List ServerAct :=
  [.accept 4, .clearStop, .spawn, .thread (.start 0), .thread (.check 0), .reply firstReply,
    .thread (.deque 0), .thread (.send 0), .disconnect 4, .receive false, .close, .resetSock,
    .clearAgain, .setStop, .thread (.check 0), .accept 4, .clearStop, .spawn, .thread (.start 1),
    .thread (.check 1), .reply secondReply, .thread (.deque 1), .thread (.send 1)]

theorem server_one_reply_thread_reconnected :
    ∃ s, exec serverStep (serverInit false .zero []) reconnectedServer = some s ∧
      handled s.pool.log = [firstReply, secondReply] ∧ s.pool.Alive 1 ∧ s.OneReplyThread := by
  have hexec : ∃ s, exec serverStep (serverInit false .zero []) reconnectedServer = some s ∧
      handled s.pool.log = [firstReply, secondReply] ∧ s.pool.Alive 1 :=
    ⟨_, rfl, rfl, WorkerPc.noConfusion⟩
  obtain ⟨s, hs, hhandled, halive⟩ := hexec
  have hexited : ∀ pool : Pool, (pool.workers 0).pc = .exited →
      (∀ i, (pool.workers (i + 1)).pc = .exited) → ∀ i, ¬ pool.Alive i := by
    intro pool hfirst hothers i hi
    cases i with
    | zero => exact hi hfirst
    | succ i => exact hi (hothers i)
  have hcareful : okAlong serverStep ServerState.Careful (serverInit false .zero [])
      reconnectedServer := by
    refine ⟨fun _ hi => absurd rfl hi, trivial, trivial, trivial, trivial, trivial, rfl, trivial,
      fun i hi => absurd hi ?_, trivial, fun i hi => absurd hi ?_, trivial, trivial, trivial,
      trivial, ?_, trivial, trivial, trivial, trivial, trivial, rfl, trivial, trivial⟩
    -- where the connection goes down no thread holds a reply, and then the first one exits
    · exact Pool.none_holds rfl rfl (fun _ => rfl) i
    · exact Pool.none_holds rfl rfl (fun _ => rfl) i
    · exact hexited _ rfl fun _ => rfl
  exact ⟨s, hs, hhandled, halive, server_one_reply_thread (RunsTo.of_exec hs hcareful)⟩

/-- The client reconnects while the old reply thread is blocked in its dequeue. -/
def reconnectBesideThread : List ServerAct :=
  [.accept 4, .clearStop, .spawn, .thread (.start 0), .thread (.check 0), .disconnect 4,
    .receive false, .close, .resetSock, .clearAgain, .setStop, .accept 4, .clearStop, .spawn]

theorem server_two_reply_threads :
    ¬ ∀ (stop : Bool) (simicsData : SimicsTransaction) (pipe : List SimicsTransaction)
      (s : ServerState), Reaches (stepOf serverStep) (serverInit stop simicsData pipe) s →
        s.OneReplyThread := by
  intro h
  have hexec : ∃ s, exec serverStep (serverInit false .zero []) reconnectBesideThread = some s ∧
      s.pool.Alive 0 ∧ s.pool.Alive 1 :=
    ⟨_, rfl, WorkerPc.noConfusion, WorkerPc.noConfusion⟩
  obtain ⟨s, hs, h0, h1⟩ := hexec
  exact absurd ((h false .zero [] s (reaches_of_exec hs)).alive 0 1 h0 h1) (by decide)

end SimConnect
