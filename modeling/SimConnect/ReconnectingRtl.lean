import SimConnect.ReconnectionSteps
import SimConnect.RtlSystem
import SimConnect.Foundation.LossyLink

/-!
# The device in network mode, whatever becomes of the connections

Readers and reply threads of connections that are gone stay blocked beside the new ones, numbers of
sockets come back, and a packet can be cut off or go on over another connection in the middle.  The
device still gets no reply but its own, and the RTL side takes no packet twice; a packet that is
lost on the way is never made up for.
-/

open SimConnect.Foundation Relation

namespace SimConnect

/-! ## The relays as a lossy link -/

namespace RelayNet

structure Quiet (s : RelayNet) : Prop where
  wired : s.Wired
  request : s.requestPassage.Quiet
  reply : s.replyPassage.Quiet

structure Going (p : SimicsTransaction) (s : RelayNet) : Prop where
  wired : s.Wired
  request : s.requestPassage.Going packetEncoding p
  reply : s.replyPassage.Quiet

structure Coming (p : SimicsTransaction) (s : RelayNet) : Prop where
  wired : s.Wired
  request : s.requestPassage.Quiet
  reply : s.replyPassage.Going packetEncoding p

/-- A packet was on the way in one direction and cannot become whole on any connection. -/
structure Lost (s : RelayNet) : Prop where
  wired : s.Wired
  lost : (s.requestPassage.Lost packetEncoding ∧ s.replyPassage.Quiet) ∨
    (s.requestPassage.Quiet ∧ s.replyPassage.Lost packetEncoding)

def clientPut (s : RelayNet) (p : SimicsTransaction) : RelayNet :=
  { s with client := { s.client with pool := s.client.pool.enqueue p } }

def serverPut (s : RelayNet) (p : SimicsTransaction) : RelayNet :=
  { s with server := { s.server with pool := s.server.pool.enqueue p } }

variable {s s' : RelayNet}

theorem Lost.sinks (h : s.Lost) : s.request.sink = [] ∧ s.reply.sink = [] := by
  rcases h.lost with ⟨hrequest, hreply⟩ | ⟨hrequest, hreply⟩
  · exact ⟨hrequest.ends.sink, hreply.2.sink⟩
  · exact ⟨hrequest.2.sink, hreply.ends.sink⟩

end RelayNet

def reconnectingLink : LossyLink SimicsTransaction SimicsTransaction RelayNet where
  clientPut := fun s p s' => s' = s.clientPut p
  clientGet := fun s p s' => ∃ rest, s.reply.sink = p :: rest ∧
    s' = { s with reply := { s.reply with sink := rest } }
  serverGet := fun s p s' => ∃ rest, s.request.sink = p :: rest ∧
    s' = { s with request := { s.request with sink := rest } }
  serverPut := fun s p s' => s' = s.serverPut p
  internal := fun s s' => ∃ a, netStep s a = some s'
  Quiet := RelayNet.Quiet
  Going := RelayNet.Going
  Coming := RelayNet.Coming
  Lost := RelayNet.Lost
  quiet_internal := by
    rintro s s' h ⟨a, hstep⟩
    have hmoves := RelayNet.moves_netStep h.wired hstep
    exact ⟨hmoves.wired, h.request.step hmoves.request, h.reply.step hmoves.reply⟩
  going_internal := by
    rintro p s s' h ⟨a, hstep⟩
    have hmoves := RelayNet.moves_netStep h.wired hstep
    have hreply := h.reply.step hmoves.reply
    rcases h.request.step hmoves.request with hgoing | hlost
    · exact Or.inl ⟨hmoves.wired, hgoing, hreply⟩
    · exact Or.inr ⟨hmoves.wired, Or.inl ⟨hlost, hreply⟩⟩
  coming_internal := by
    rintro p s s' h ⟨a, hstep⟩
    have hmoves := RelayNet.moves_netStep h.wired hstep
    have hrequest := h.request.step hmoves.request
    rcases h.reply.step hmoves.reply with hgoing | hlost
    · exact Or.inl ⟨hmoves.wired, hrequest, hgoing⟩
    · exact Or.inr ⟨hmoves.wired, Or.inr ⟨hrequest, hlost⟩⟩
  lost_internal := by
    rintro s s' h ⟨a, hstep⟩
    have hmoves := RelayNet.moves_netStep h.wired hstep
    refine ⟨hmoves.wired, ?_⟩
    rcases h.lost with ⟨hrequest, hreply⟩ | ⟨hrequest, hreply⟩
    · exact Or.inl ⟨hrequest.step hmoves.request, hreply.step hmoves.reply⟩
    · exact Or.inr ⟨hrequest.step hmoves.request, hreply.step hmoves.reply⟩
  clientPut_going := by
    rintro s p s' h rfl
    exact ⟨⟨h.wired.client, h.wired.server, h.wired.backlog, h.wired.nodup⟩, h.request.put p,
      h.reply⟩
  serverPut_coming := by
    rintro s p s' h rfl
    exact ⟨⟨h.wired.client, h.wired.server, h.wired.backlog, h.wired.nodup⟩, h.request,
      h.reply.put p⟩
  serverGet_going := by
    rintro p s p' s' h ⟨rest, hsink, rfl⟩
    obtain ⟨hp, hquiet⟩ := h.request.get hsink
    exact ⟨hp, ⟨h.wired.client, h.wired.server, h.wired.backlog, h.wired.nodup⟩, hquiet, h.reply⟩
  clientGet_coming := by
    rintro p s p' s' h ⟨rest, hsink, rfl⟩
    obtain ⟨hp, hquiet⟩ := h.reply.get hsink
    exact ⟨hp, ⟨h.wired.client, h.wired.server, h.wired.backlog, h.wired.nodup⟩, h.request, hquiet⟩
  serverGet_only := by
    rintro s p s' ⟨rest, hsink, _⟩
    have hne : s.request.sink ≠ [] := by
      rw [hsink]
      exact List.cons_ne_nil _ _
    exact ⟨fun h => hne h.request.2.sink, fun h => hne h.sinks.1, fun b h => hne h.request.2.sink⟩
  clientGet_only := by
    rintro s p s' ⟨rest, hsink, _⟩
    have hne : s.reply.sink ≠ [] := by
      rw [hsink]
      exact List.cons_ne_nil _ _
    exact ⟨fun h => hne h.reply.2.sink, fun h => hne h.sinks.2, fun a h => hne h.reply.2.sink⟩

/-! ## The device on a lossy link -/

abbrev LossyRelay (σ : Type) := LossyLink SimicsTransaction SimicsTransaction σ

abbrev LossyRtl (σ : Type) := Exchange SimicsTransaction SimicsTransaction σ RtlSide

section Device

variable {σ : Type} (L : LossyRelay σ)

/-- As `linkPipes`, where a packet that was written may be lost later. -/
def lossyPipes : PipeSystem (LossyRtl σ) where
  write := fun s pipe p r s' => pipe = .requestClient ∧ r = simicsPktSize ∧ s.clientPut L p s'
  read := fun s pipe r s' => pipe = .replyClient ∧ ∃ p, r = .packet p ∧ s.clientGet L p s'
  env := Exchange.Env L rtlServe

def lossyPlan (ok : (c : SysCall) → c.Ret → Prop) (spd : SimicsTransaction) :
    PipePlan (lossyPipes L) ok (Exchange.InStep L RtlAnswer) spd where
  idle := fun s => s.Idle L RtlAnswer
  sent := fun s => s.Waiting L RtlAnswer spd
  done := fun r s => s.Idle L RtlAnswer ∧ ∃ p, r = .packet p ∧ RtlAnswer spd (some p)
  idle_env := fun _ _ hstep h => h.env hstep
  sent_env := fun _ _ hstep h => h.env rtlServe_obeys hstep
  done_env := fun _ _ _ hstep h => ⟨h.1.env hstep, h.2⟩
  idle_inv := fun _ h => Or.inl h
  sent_inv := fun _ h => Or.inr ⟨spd, h⟩
  done_inv := fun _ _ h => Or.inl h.1
  write := fun _ _ _ _ hidle _ hwrite => hidle.put hwrite.2.2
  read := by
    rintro s r s' hsent ⟨_, p, hr, hget⟩
    obtain ⟨hR, hidle⟩ := hsent.get hget
    exact ⟨hidle, p, hr, hR⟩

theorem lossy_steady : Steady (lossyPipes L).world (fun h => h.pipes.InStep L RtlAnswer)
    fun h => h.pipes.Idle L RtlAnswer :=
  ⟨fun _ _ henv hidle => hidle.env henv.1, fun _ hidle => Or.inl hidle⟩

theorem issue_lossy (ok : (c : SysCall) → c.Ret → Prop) (req : DeviceAccess) (m : ForwardReceiver)
    (hs : req.t.size.toNat ≤ maxPayloadSize) {h : Host (LossyRtl σ)}
    (hidle : h.pipes.Idle L RtlAnswer) :
    (issueBody req m).wp ((lossyPipes L).world.only ok) (fun h => h.pipes.InStep L RtlAnswer)
      (fun x h' => h'.pipes.Idle L RtlAnswer ∧ x.1 = deviceReturns req) h := by
  have hbody := issueBody_wp (fun _ => (lossy_steady L).only ok) req m hs (fun _ => hidle) fun _ =>
    access_answered (issueAccess req.dev req.t req.addr m) m.lib (lossyPlan L ok _)
      (fun _ _ hend => hend) hidle
  exact Prog.wp_mono (fun _ _ hx => ⟨hx.1, hx.2.2⟩) hbody

abbrev LossyClient (σ : Type) :=
  Client SysCall SysCall.Ret (Host (LossyRtl σ)) ForwardReceiver DeviceAccess
    (ExceptionType × Transaction)

def LossyFits (σ : Type) : LossyClient σ → ClientLabel SysCall SysCall.Ret DeviceAccess → Prop :=
  Client.Meets (fun _ req => req.t.size.toNat ≤ maxPayloadSize) fun _ _ => True

abbrev LossyStep : LossyClient σ → ClientLabel SysCall SysCall.Ret DeviceAccess →
    LossyClient σ → Prop :=
  Client.Step (lossyPipes L).world issueBody

variable {L} {m : ForwardReceiver} {h₀ : Host (LossyRtl σ)} {s s' : LossyClient σ}

theorem lossy_between (hidle : h₀.pipes.Idle L RtlAnswer)
    (hrun : RunsTo (LossyStep L) (LossyFits σ) ⟨m, none, h₀, []⟩ s) :
    Client.Between (lossyPipes L).world (fun _ _ => True) (fun h => h.pipes.InStep L RtlAnswer)
      (fun _ h => h.pipes.Idle L RtlAnswer) (fun req res _ => res = deviceReturns req) s ∧
      ∀ x ∈ s.log, x.2 = deviceReturns x.1 :=
  Client.run_between (G := fun req res _ => res = deviceReturns req) (fun _ => lossy_steady L)
    (fun _ _ _ _ _ hgood => hgood) (fun _ _ _ _ _ _ _ hgood => hgood)
    (fun m _ req hidle hs => issue_lossy L _ req m hs hidle) hrun rfl rfl hidle

/-- A device whose packet is lost, or is the one that ends the simulation, never comes to the end of
its transaction. -/
theorem stranded_forever (hidle : h₀.pipes.Idle L RtlAnswer)
    (hrun : RunsTo (LossyStep L) (LossyFits σ) ⟨m, none, h₀, []⟩ s)
    (hstranded : s.world.pipes.Stranded L) (hlater : RunsTo (LossyStep L) (LossyFits σ) s s') :
    s'.world.pipes.Stranded L ∧ s'.log = s.log := by
  have hinv : RunsTo (LossyStep L) (LossyFits σ) ⟨m, none, h₀, []⟩ s' ∧
      s'.world.pipes.Stranded L ∧ s'.log = s.log := by
    refine hlater.invariant (I := fun t => RunsTo (LossyStep L) (LossyFits σ) ⟨m, none, h₀, []⟩ t ∧
      t.world.pipes.Stranded L ∧ t.log = s.log) ⟨hrun, hstranded, rfl⟩ ?_
    rintro t label t' ⟨hreached, hnow, hlog⟩ hok hstep
    have hreached' := RunsTo.next hreached hok hstep
    have hbetween := (lossy_between hidle hreached).1
    have hbetween' := (lossy_between hidle hreached').1
    refine ⟨hreached', ?_⟩
    cases hstep with
    | env henv => exact ⟨hnow.env henv.1, hlog⟩
    | begin req => exact absurd hbetween hnow.not_idle
    | call hcall =>
        rcases PipeSystem.call_pipes hcall with heq | ⟨_, p, _, _, _, hput⟩ |
          ⟨_, _, _, p, _, hget⟩
        · exact ⟨heq ▸ hnow, hlog⟩
        · -- the device would have two packets on the way
          exact absurd (hbetween'.inv fun _ => lossy_steady L) (hnow.no_put hput)
        · exact absurd hget hnow.1.no_get
    | finish => exact absurd hbetween' hnow.not_idle
  exact hinv.2

end Device

/-! ## Network mode from the start -/

namespace RelayNet

theorem init_quiet (fd : ℤ) (clientStop serverStop : Bool) :
    (init fd clientStop serverStop).Quiet := by
  have hclient : ∀ fd' c, (init fd clientStop serverStop).client.shared.conn
      (init fd clientStop serverStop).clientConn fd' ≠ some c := by
    intro fd' c hc
    have hconnected : Function.update (fun _ => SockState.closed) fd .idle fd' = .connected :=
      (Shared.conn_of_connected hc).1
    by_cases hfd : fd' = fd
    · rw [hfd, Function.update_self] at hconnected
      cases hconnected
    · rw [Function.update_of_ne hfd] at hconnected
      cases hconnected
  refine ⟨⟨fun fd' c hc => absurd hc (hclient fd' c), fun fd' c hc => ?_, nofun, List.nodup_nil⟩,
    ⟨⟨fun _ => rfl, fun _ => rfl⟩, rfl, rfl, rfl⟩, ⟨⟨fun _ => rfl, fun _ => rfl⟩, rfl, rfl, rfl⟩⟩
  cases hc

end RelayNet

-- both processes are started and nothing is connected yet
def reconnectingInit (fd : ℤ) (clientStop serverStop : Bool) (rtl : RtlSide) :
    LossyRtl RelayNet where
  link := .init fd clientStop serverStop
  server := .ready rtl
  put := []
  taken := []
  got := []

theorem reconnectingInit_idle (fd : ℤ) (clientStop serverStop : Bool) (rtl : RtlSide) :
    (reconnectingInit fd clientStop serverStop rtl).Idle reconnectingLink RtlAnswer :=
  ⟨RelayNet.init_quiet fd clientStop serverStop, ⟨rtl, rfl⟩, rfl, rfl, answers_nil _⟩

/-- Network mode from the start of both processes, over any number of connections, in any
interleaving: at most one packet is on the way, the RTL side takes the packets of the device in
order and none of them twice, every transaction that ends, ends as `deviceReturns` says, and one
whose packet is lost never ends. -/
theorem reconnecting_rtl_device {fd : ℤ} {clientStop serverStop : Bool} {rtl : RtlSide}
    {m : ForwardReceiver} {fds : ℤ → Option PipeName} {s : LossyClient RelayNet}
    (hrun : RunsTo (LossyStep reconnectingLink) (LossyFits RelayNet)
      ⟨m, none, ⟨fds, reconnectingInit fd clientStop serverStop rtl⟩, []⟩ s) :
    s.world.pipes.InStep reconnectingLink RtlAnswer ∧
      (s.world.pipes.taken <+: s.world.pipes.put ∧
        s.world.pipes.put.length ≤ s.world.pipes.taken.length + 1) ∧
      (∀ x ∈ s.log, x.2 = deviceReturns x.1) ∧
      (s.world.pipes.Stranded reconnectingLink →
        ∀ s', RunsTo (LossyStep reconnectingLink) (LossyFits RelayNet) s s' → s'.log = s.log) := by
  have hidle := reconnectingInit_idle fd clientStop serverStop rtl
  obtain ⟨hbetween, hlog⟩ := lossy_between hidle hrun
  have hin := hbetween.inv fun _ => lossy_steady reconnectingLink
  exact ⟨hin, hin.taken, hlog, fun hstranded s' hlater =>
    (stranded_forever hidle hrun hstranded hlater).2⟩

/-! ## Runs -/

-- a reader that takes its packet after its connection has been given up
def closedBeforeRequest : List NetAct :=
  [.client (.connect true), .client .clearStop, .client .spawn, .client (.reader (.start 0)),
    .client (.reader (.check 0)), .client (.receive false), .client .close,
    .client (.reader (.deque 0)), .client (.reader (.send 0))]

/-- A packet can be lost. -/
theorem stranded_reached (p : SimicsTransaction) :
    ∃ s s', (reconnectingInit 3 false false .init).clientPut reconnectingLink p s ∧
      ReflTransGen (Exchange.Env reconnectingLink rtlServe) s s' ∧
      s'.Stranded reconnectingLink := by
  obtain ⟨s, hexec, hstill, hends⟩ : ∃ s, exec netStep ((RelayNet.init 3 false false).clientPut p)
      closedBeforeRequest = some s ∧ s.requestPassage.Still ∧
        s.requestPassage.Ends [] none [] := by
    refine ⟨_, rfl, ⟨fun i => ?_, fun _ => rfl⟩, rfl, rfl, rfl⟩
    -- the only reader has come back from its CXL_Send
    cases i with
    | zero => rfl
    | succ i => rfl
  have hstart := RelayNet.init_quiet 3 false false
  obtain ⟨hwired, hreply⟩ := exec_invariant (I := fun s => s.Wired ∧ s.replyPassage.Quiet)
    (fun s a s' h hstep =>
      have hmoves := RelayNet.moves_netStep h.1 hstep
      ⟨hmoves.wired, h.2.step hmoves.reply⟩)
    ⟨⟨hstart.wired.client, hstart.wired.server, hstart.wired.backlog, hstart.wired.nodup⟩,
      hstart.reply⟩ hexec
  have hsteps := reflTransGen_of_exec (r := reconnectingLink.internal)
    (fun a _ _ _ hstep => ⟨a, hstep⟩) hexec
  refine ⟨_, _, ⟨_, rfl, rfl⟩, Exchange.Env.internals _ hsteps,
    Or.inl ⟨⟨hwired, Or.inl ⟨hstill.lost hends, hreply⟩⟩, .init, rfl⟩, Nat.zero_lt_one⟩

def threadUp : List WorkerAct := [.start 0, .check 0]

-- both sides are connected with a thread at its dequeue, and the connection breaks down
def firstConnection : List NetAct :=
  [.client (.connect true), .client .clearStop, .client .spawn] ++
    threadUp.map (fun a => .client (.reader a)) ++
    [.server (.accept 4), .server .clearStop, .server .spawn] ++
    threadUp.map (fun a => .server (.thread a)) ++
    [.client (.receive false), .client .close, .server (.receive false), .server .close]

-- the numbers of the sockets come back
def secondConnection : List NetAct :=
  [.server .resetSock, .server .clearAgain, .server .setStop, .client (.newSocket 3),
    .client .setStop, .client (.connect true), .client .clearStop, .client .spawn,
    .server (.accept 4), .server .clearStop, .server .spawn]

-- the threads of the first connection carry the packet over the second one
def oldThreadsRequest : List NetAct :=
  [.client (.reader (.deque 0)), .sendRequest 0 99, .sendRequest 0 400, .client (.reader (.send 0)),
    .recvRequest 287, .server (.receive true)]

def oldThreadsReply : List NetAct :=
  [.server (.thread (.deque 0)), .sendReply 0 287, .server (.thread (.send 0)), .recvReply 287,
    .client (.receive true)]

def reconnectFetch (s : RelayNet) : Option (SimicsTransaction × RelayNet) := do
  let s ← exec netStep s (firstConnection ++ secondConnection ++ oldThreadsRequest)
  match s.request.sink with
  | p :: rest => some (p, { s with request := { s.request with sink := rest } })
  | [] => none

def reconnectAnswer (s : RelayNet) (p : SimicsTransaction) :
    Option (SimicsTransaction × RelayNet) := do
  let s ← exec netStep (s.serverPut p) oldThreadsReply
  match s.reply.sink with
  | p :: rest => some (p, { s with reply := { s.reply with sink := rest } })
  | [] => none

def reconnectSend (s : LossyRtl RelayNet) (p : SimicsTransaction) : Option (LossyRtl RelayNet) :=
  some { s with link := s.link.clientPut p, put := s.put ++ [p] }

def reconnectReply (s : LossyRtl RelayNet) : Option (SimicsTransaction × LossyRtl RelayNet) :=
  match s.server with
  | .ready rtl => do
      let p ← reconnectFetch s.link
      let x ← promptRound rtl p.1
      let b ← reconnectAnswer p.2 x.1
      some (b.1, { s with
        link := b.2
        server := .ready x.2
        taken := s.taken ++ [p.1]
        got := s.got ++ [b.1] })
  | _ => none

theorem reconnectFetch_steps {s : RelayNet} {x : SimicsTransaction × RelayNet}
    (h : reconnectFetch s = some x) :
    ∃ s₁, ReflTransGen reconnectingLink.internal s s₁ ∧
      reconnectingLink.serverGet s₁ x.1 x.2 := by
  obtain ⟨s₁, hexec, h⟩ := Option.bind_eq_some_iff.mp h
  refine ⟨s₁, reflTransGen_of_exec (fun a _ _ _ hstep => ⟨a, hstep⟩) hexec, ?_⟩
  cases hsink : s₁.request.sink with
  | nil =>
      rw [hsink] at h
      cases h
  | cons p rest =>
      rw [hsink] at h
      cases h
      exact ⟨rest, hsink, rfl⟩

theorem reconnectAnswer_steps {s : RelayNet} {p : SimicsTransaction}
    {x : SimicsTransaction × RelayNet} (h : reconnectAnswer s p = some x) :
    ∃ s₁, ReflTransGen reconnectingLink.internal (s.serverPut p) s₁ ∧
      reconnectingLink.clientGet s₁ x.1 x.2 := by
  obtain ⟨s₁, hexec, h⟩ := Option.bind_eq_some_iff.mp h
  refine ⟨s₁, reflTransGen_of_exec (fun a _ _ _ hstep => ⟨a, hstep⟩) hexec, ?_⟩
  cases hsink : s₁.reply.sink with
  | nil =>
      rw [hsink] at h
      cases h
  | cons p rest =>
      rw [hsink] at h
      cases h
      exact ⟨rest, hsink, rfl⟩

theorem reconnectReply_steps {s : LossyRtl RelayNet} {x : SimicsTransaction × LossyRtl RelayNet}
    (h : reconnectReply s = some x) :
    ∃ s₁, ReflTransGen (Exchange.Env reconnectingLink rtlServe) s s₁ ∧
      s₁.clientGet reconnectingLink x.1 x.2 := by
  unfold reconnectReply at h
  split at h
  · next rtl hready =>
      obtain ⟨p, hp, h⟩ := Option.bind_eq_some_iff.mp h
      obtain ⟨y, hround, h⟩ := Option.bind_eq_some_iff.mp h
      obtain ⟨b, hb, h⟩ := Option.bind_eq_some_iff.mp h
      cases h
      obtain ⟨l₁, hgo, htake⟩ := reconnectFetch_steps hp
      obtain ⟨l₂, hback, hget⟩ := reconnectAnswer_steps hb
      have hserve : rtlServe rtl p.1 (some y) := ⟨_, _, _, (round_of_promptRound hround).symm⟩
      have hserved := (Exchange.Env.internals s hgo).tail (.take hready htake hserve)
      have hput := hserved.tail (.put rfl rfl)
      exact ⟨_, hput.trans (Exchange.Env.internals _ hback), _, hget, rfl⟩
  · cases h

def reconnectStart : Host (LossyRtl RelayNet) :=
  ⟨fun _ => none, reconnectingInit 3 false false .init⟩

theorem reconnecting_rtl_device_read :
    ∃ s : LossyClient RelayNet,
      RunsTo (LossyStep reconnectingLink) (LossyFits RelayNet) ⟨.init, none, reconnectStart, []⟩ s ∧
      ∃ x ∈ s.log, x.2 = (.noException, { isRead := true, size := 4, value := 0 }) := by
  have hends : ((issueBody fourBytesRead .init).runWith?
      (promptPipes reconnectSend reconnectReply) reconnectStart).isSome = true := by
    decide +kernel
  obtain ⟨⟨⟨a, m⟩, h'⟩, hrun⟩ := Option.isSome_iff_exists.mp hends
  have hfits : (4 : UInt32).toNat ≤ maxPayloadSize := by decide
  have hsend : ∀ s p s', reconnectSend s p = some s' →
      (lossyPipes reconnectingLink).write s .requestClient p simicsPktSize s' := by
    intro s p s' hs
    cases hs
    exact ⟨rfl, rfl, _, rfl, rfl⟩
  have hreply : ∀ s x, reconnectReply s = some x →
      ∃ s₁, ReflTransGen (lossyPipes reconnectingLink).env s s₁ ∧
        (lossyPipes reconnectingLink).read s₁ .replyClient (.packet x.1) x.2 := by
    intro s x hx
    obtain ⟨s₁, hsteps, hget⟩ := reconnectReply_steps hx
    exact ⟨s₁, hsteps, rfl, _, rfl, hget⟩
  have hstep : RunsTo (LossyStep reconnectingLink) (LossyFits RelayNet)
      ⟨.init, none, reconnectStart, []⟩ ⟨m, none, h', [] ++ [(fourBytesRead, a)]⟩ :=
    Client.request? _ (promptPipes_ok _ hsend hreply) .start hfits hrun
  refine ⟨_, hstep, (fourBytesRead, a), List.mem_singleton_self _, ?_⟩
  exact (reconnecting_rtl_device hstep).2.2.1 _ (List.mem_singleton_self _)

end SimConnect
