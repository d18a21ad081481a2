import SimConnect.Workers

/-!
# cxl_relay_client_thread: reconnecting

The main thread closes a dead connection, opens a new socket and spawns a new reader, while the
readers of old connections may still be blocked in their dequeue.  A request is forwarded exactly
once as long as no reader is caught between its dequeue and its send.
-/

open SimConnect.Foundation

namespace SimConnect

/-! ## The step function -/

inductive ClientPc
  | connect
  | clearStop
  | spawn
  | receive
  | close
  | newSocket
  | setStop
  deriving DecidableEq

structure ClientState where
  pc : ClientPc
  shared : Shared
  pool : Pool

/-- The statements of `cxl_relay_client_thread` (with the results of their calls), the steps of its
readers, and what the peer and the host do.  No statement sets `cxl_client_stopflag`. -/
inductive ClientAct
  | connect (ok : Bool)
  | clearStop
  | spawn
  | receive (ok : Bool)
  | close
  | newSocket (fd : ℤ)
  | setStop
  | reader (a : WorkerAct)
  | disconnect (fd : ℤ)
  | enqueue (p : SimicsTransaction)

def clientStep (s : ClientState) : ClientAct → Option ClientState
  | .connect ok =>
      if s.pc = .connect then
        if ok then
          -- connect(2) needs an open socket that is not connected yet
          if s.shared.sockets s.shared.socket = .idle then
            some
              { s with
                pc := .clearStop
                shared :=
                  { s.shared.setSocket s.shared.socket .connected with
                    accepted := s.shared.socket } }
          else none
        else some s
      else none
  | .clearStop =>
      if s.pc = .clearStop then
        some { s with pc := .spawn, shared := { s.shared with stop := false } }
      else none
  | .spawn =>
      if s.pc = .spawn then some { s with pc := .receive, pool := s.pool.spawn } else none
  | .receive ok =>
      -- a full packet goes to simics_enque_reply_client_tlp, and the loop goes on
      if s.pc = .receive then some { s with pc := if ok then .receive else .close } else none
  | .close =>
      if s.pc = .close then
        some { s with pc := .newSocket, shared := s.shared.setSocket s.shared.socket .closed }
      else none
  | .newSocket fd =>
      if s.pc = .newSocket then
        if fd = -1 then
          some { s with pc := .setStop, shared := { s.shared with socket := -1 } }
        else if 0 ≤ fd ∧ s.shared.sockets fd = .closed then
          some
            { s with
              pc := .setStop
              shared := { s.shared.setSocket fd .idle with socket := fd } }
        else none
      else none
  | .setStop =>
      if s.pc = .setStop then
        some { s with pc := .connect, shared := { s.shared with stop := true } }
      else none
  | .reader a => (s.pool.step s.shared a).map fun pool => { s with pool }
  | .disconnect fd =>
      if s.shared.sockets fd = .connected then
        some { s with shared := s.shared.setSocket fd .idle }
      else none
  | .enqueue p => some { s with pool := s.pool.enqueue p }

/-- The client before its first `CXL_Connect`: one fresh socket, no reader. -/
def clientInit (fd : ℤ) (stop : Bool) (simicsData : SimicsTransaction)
    (pipe : List SimicsTransaction) : ClientState where
  pc := .connect
  shared :=
    { stop, socket := fd, sockets := Function.update (fun _ => .closed) fd .idle, accepted := -1 }
  pool := .empty simicsData pipe

/-! ## Every handled request is sent once -/

/-- Of the requests that the readers have handled, each has gone out over a connection, and nothing
else has. -/
def ClientState.ForwardedOnce (s : ClientState) : Prop :=
  (delivered s.pool.log).Perm (handled s.pool.log)

/-- A reader takes a request only while its socket is connected and no reader holds another request,
and a connection goes down only while no reader that is bound to it holds a request. -/
def ClientState.Careful (s : ClientState) : ClientAct → Prop
  | .reader (.deque i) =>
      s.shared.sockets (s.pool.workers i).sock = .connected ∧ ∀ j, ¬ s.pool.Holds j
  | .disconnect fd => ∀ j, s.pool.Holds j → (s.pool.workers j).sock ≠ fd
  | .close => ∀ j, s.pool.Holds j → (s.pool.workers j).sock ≠ s.shared.socket
  | _ => True

theorem clientStep_exclusive {s s' : ClientState} {a : ClientAct}
    (h : s.pool.Exclusive s.shared) (hok : s.Careful a) (hstep : clientStep s a = some s') :
    s'.pool.Exclusive s'.shared := by
  cases a with
  | connect ok =>
      simp only [clientStep] at hstep
      split_ifs at hstep with hpc hb hidle
      · cases hstep
        have hopen := h.setSocket s.shared.socket .connected fun i hi =>
          h.sock_ne (by rw [hidle]; decide) hi
        exact hopen.shared fun i hi => hopen.connected i hi
      · cases hstep
        exact h
  | clearStop =>
      simp only [clientStep] at hstep
      split_ifs at hstep
      cases hstep
      exact h.shared h.connected
  | spawn =>
      simp only [clientStep] at hstep
      split_ifs at hstep
      cases hstep
      exact h.spawn
  | receive ok =>
      simp only [clientStep] at hstep
      split_ifs at hstep
      all_goals
        cases hstep
        exact h
  | close =>
      simp only [clientStep] at hstep
      split_ifs at hstep
      cases hstep
      exact h.setSocket _ .closed hok
  | newSocket fd =>
      simp only [clientStep] at hstep
      split_ifs at hstep with hpc hfail hfresh
      · cases hstep
        exact h.shared h.connected
      · cases hstep
        -- a fresh number belongs to no holder
        have hopen := h.setSocket fd .idle fun i hi => h.sock_ne (by rw [hfresh.2]; decide) hi
        exact hopen.shared hopen.connected
  | setStop =>
      simp only [clientStep] at hstep
      split_ifs at hstep
      cases hstep
      exact h.shared h.connected
  | reader a =>
      obtain ⟨pool', hpool, rfl⟩ := Option.map_eq_some_iff.mp hstep
      refine h.step hpool fun i hi => ?_
      subst hi
      exact hok
  | disconnect fd =>
      simp only [clientStep] at hstep
      split_ifs at hstep
      cases hstep
      exact h.setSocket _ .idle hok
  | enqueue p =>
      cases hstep
      exact h.enqueue p

/-- In every run that meets the condition at each step, every handled request has been sent exactly
once. -/
theorem client_forwards_once {fd : ℤ} {stop : Bool} {simicsData : SimicsTransaction}
    {pipe : List SimicsTransaction} {s : ClientState}
    (h : RunsTo (stepOf clientStep) ClientState.Careful (clientInit fd stop simicsData pipe) s) :
    s.ForwardedOnce := by
  have hexclusive : s.pool.Exclusive s.shared := by
    refine h.invariant (I := fun s => s.pool.Exclusive s.shared)
      (Pool.Exclusive.empty _ simicsData pipe) ?_
    intro s a s' hs hok hstep
    exact clientStep_exclusive hs hok hstep
  rw [ClientState.ForwardedOnce, delivered_eq_handled hexclusive.sent]

def firstRequest : SimicsTransaction := { SimicsTransaction.zero with packetNumber := 1 }

def secondRequest : SimicsTransaction := { SimicsTransaction.zero with packetNumber := 2 }

-- a request over each of two connections; the first reader is still there on the second one
def reconnectedClient : List ClientAct :=
  [.connect true, .clearStop, .spawn, .reader (.start 0), .reader (.check 0), .enqueue firstRequest,
    .reader (.deque 0), .reader (.send 0), .disconnect 3, .receive false, .close, .newSocket 5,
    .setStop, .connect true, .clearStop, .spawn, .reader (.start 1), .reader (.check 1),
    .enqueue secondRequest, .reader (.deque 1), .reader (.send 1)]

theorem client_forwards_once_reconnected :
    ∃ s, exec clientStep (clientInit 3 false .zero []) reconnectedClient = some s ∧
      handled s.pool.log = [firstRequest, secondRequest] ∧ s.pool.Alive 0 ∧ s.ForwardedOnce := by
  have hexec : ∃ s, exec clientStep (clientInit 3 false .zero []) reconnectedClient = some s ∧
      handled s.pool.log = [firstRequest, secondRequest] ∧ s.pool.Alive 0 :=
    ⟨_, rfl, rfl, WorkerPc.noConfusion⟩
  obtain ⟨s, hs, hhandled, halive⟩ := hexec
  have hcareful : okAlong clientStep ClientState.Careful (clientInit 3 false .zero [])
      reconnectedClient := by
    refine ⟨trivial, trivial, trivial, trivial, trivial, trivial, ⟨rfl, ?_⟩, trivial,
      fun j hj => absurd hj ?_, trivial, fun j hj => absurd hj ?_, trivial, trivial, trivial,
      trivial, trivial, trivial, trivial, trivial, ⟨rfl, ?_⟩, trivial, trivial⟩
    -- at a dequeue and where the connection goes down no thread holds a request
    · exact Pool.none_holds rfl rfl fun _ => rfl
    · exact Pool.none_holds rfl rfl (fun _ => rfl) j
    · exact Pool.none_holds rfl rfl (fun _ => rfl) j
    · exact Pool.none_holds rfl rfl fun _ => rfl
  exact ⟨s, hs, hhandled, halive, client_forwards_once (RunsTo.of_exec hs hcareful)⟩

/-- A reader that is blocked in its dequeue while the connection goes down. -/
def disconnectThenRequest : List ClientAct :=
  [.connect true, .clearStop, .spawn, .reader (.start 0), .reader (.check 0), .disconnect 3,
    .receive false, .close, .enqueue firstRequest, .reader (.deque 0), .reader (.send 0)]

theorem client_drops_request :
    ¬ ∀ (fd : ℤ) (stop : Bool) (simicsData : SimicsTransaction) (pipe : List SimicsTransaction)
      (s : ClientState), Reaches (stepOf clientStep) (clientInit fd stop simicsData pipe) s →
        s.ForwardedOnce := by
  intro h
  have hexec : ∃ s, exec clientStep (clientInit 3 false .zero []) disconnectThenRequest = some s ∧
      handled s.pool.log = [firstRequest] ∧ delivered s.pool.log = [] := ⟨_, rfl, rfl, rfl⟩
  obtain ⟨s, hs, hhandled, hdelivered⟩ := hexec
  have hperm := h 3 false .zero [] s (reaches_of_exec hs)
  rw [ClientState.ForwardedOnce, hhandled, hdelivered] at hperm
  exact absurd hperm.length_eq (by decide)

end SimConnect
