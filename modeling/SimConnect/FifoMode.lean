import SimConnect.HostPipes
import SimConnect.RelayLoops
import SimConnect.Foundation.Queue

/-!
# The relay server in FIFO mode

With `usenetwork` 0 the host, the two threads of the relay server and the RTL side share nothing
but the four pipes.  Every write appends a whole packet and every read takes the oldest one, so a
pipe is a list of packets here.
-/

open SimConnect.Foundation

namespace SimConnect

/-! ## The halves of a round -/

namespace RelayThread

-- cxl_server_fifo_access_thread up to the dequeue and after it
def dequeRequest (t : RelayThread) (r : ReadResult) : RelayThread :=
  { t with simicsData := (simicsDequeRequestClientTlp r t.simicsData).2 }

def forwardRequest (t : RelayThread) (retval : ℤ) : RelayThread :=
  if (simicsEnqueRequestServerTlp retval t.simicsData).isSome then { t with total := t.total + 1 }
  else t

-- the same of cxl_rtl_to_host_reply_thread
def dequeReply (t : RelayThread) (r : ReadResult) : RelayThread :=
  { t with simicsData := (simicsDequeReplyRequestServerTlp r t.simicsData).2 }

def forwardReply (t : RelayThread) (retval : ℤ) : RelayThread :=
  if (simicsEnqueReplyClientTlp retval t.simicsData).isSome then { t with total := t.total + 1 }
  else t

@[simp] theorem dequeRequest_packet (t : RelayThread) (p : SimicsTransaction) :
    (t.dequeRequest (.packet p)).simicsData = p := ReadResult.store_packet t.simicsData p

@[simp] theorem dequeReply_packet (t : RelayThread) (p : SimicsTransaction) :
    (t.dequeReply (.packet p)).simicsData = p := ReadResult.store_packet t.simicsData p

def init : RelayThread where
  simicsData := .zero
  waitFifoPrintfFlag := 0
  total := 0

end RelayThread

/-- The two halves make up the round of the access thread, and the packet that the first one leaves
is the one that the round forwards. -/
theorem requestRound_halves (name : String) (verbose : Bool) (t : RelayThread) (r : Round) :
    (requestRound name dumpForSystemVerilogFifoInPut verbose t r).1 =
        (t.dequeRequest r.read).forwardRequest r.retval ∧
      forwarded (requestRound name dumpForSystemVerilogFifoInPut verbose t r).2 =
        [(t.dequeRequest r.read).simicsData] := by
  have hforward := requestRound_forwardsStatic name verbose _
    (fun p r => forwarded_dumpForSystemVerilogFifoInPut verbose p r)
  refine ⟨?_, hforward.forwarded t r⟩
  -- success in the round is the non-NULL result of the enqueue
  have hround : (requestRound name dumpForSystemVerilogFifoInPut verbose t r).1 =
      { t.dequeRequest r.read with
        total := if (simicsEnqueRequestServerTlp r.retval (t.dequeRequest r.read).simicsData).isSome
          then t.total + 1 else t.total } := rfl
  rw [hround, RelayThread.forwardRequest]
  split <;> rfl

theorem replyRound_halves (verbose : Bool) (t : RelayThread) (r : Round) :
    (replyRound false verbose t r).1 = (t.dequeReply r.read).forwardReply r.retval ∧
      forwarded (replyRound false verbose t r).2 = [(t.dequeReply r.read).simicsData] := by
  refine ⟨?_, (replyRound_forwardsStatic false verbose).forwarded t r⟩
  have hround : (replyRound false verbose t r).1 =
      { t.dequeReply r.read with
        total := if (simicsEnqueReplyClientTlp r.retval (t.dequeReply r.read).simicsData).isSome
          then t.total + 1 else t.total } := rfl
  rw [hround, RelayThread.forwardReply]
  split <;> rfl

/-! ## The four pipes and the two threads -/

-- where a thread stands; the reply thread is spawned when the access thread has its pipes
inductive ThreadAt
  | notStarted
  | dequeue
  | forward
  | exited
  deriving DecidableEq

/-- The last four members record what the host and the RTL side did. -/
structure FifoState where
  requestClient : List SimicsTransaction
  requestServer : List SimicsTransaction
  replyServer : List SimicsTransaction
  replyClient : List SimicsTransaction
  accessAt : ThreadAt
  access : RelayThread
  replyAt : ThreadAt
  reply : RelayThread
  hostEnqueued : List SimicsTransaction
  rtlDequeued : List SimicsTransaction
  rtlEnqueued : List SimicsTransaction
  hostDequeued : List SimicsTransaction

def FifoState.init : FifoState where
  requestClient := []
  requestServer := []
  replyServer := []
  replyClient := []
  accessAt := .notStarted
  access := .init
  replyAt := .notStarted
  reply := .init
  hostEnqueued := []
  rtlDequeued := []
  rtlEnqueued := []
  hostDequeued := []

inductive FifoLabel
  | hostEnqueue (p : SimicsTransaction)
  | hostDequeue
  | openClientPipe (ret : ℤ)
  | accessDequeue
  | accessForward
  | replyDequeue
  | replyForward
  | rtlDequeue
  | rtlEnqueue (p : SimicsTransaction)

/-- One step of one party.  A dequeue waits for a packet, and a thread forwards what its static
packet holds. -/
def fifoStep (s : FifoState) : FifoLabel → Option FifoState
  | .hostEnqueue p =>
      some { s with requestClient := s.requestClient ++ [p], hostEnqueued := s.hostEnqueued ++ [p] }
  | .hostDequeue =>
      match s.replyClient with
      | p :: rest => some { s with replyClient := rest, hostDequeued := s.hostDequeued ++ [p] }
      | [] => none
  | .openClientPipe ret =>
      match s.accessAt, s.replyAt with
      | .notStarted, .notStarted =>
          -- exit(0)
          if ret < 0 then some { s with accessAt := .exited }
          -- spawn_reply_back_thread
          else some { s with accessAt := .dequeue, replyAt := .dequeue }
      | _, _ => none
  | .accessDequeue =>
      match s.accessAt, s.requestClient with
      | .dequeue, p :: rest =>
          some { s with
            requestClient := rest
            accessAt := .forward
            access := s.access.dequeRequest (.packet p) }
      | _, _ => none
  | .accessForward =>
      match s.accessAt with
      | .forward =>
          some { s with
            requestServer := s.requestServer ++ [s.access.simicsData]
            accessAt := .dequeue
            access := s.access.forwardRequest simicsPktSize }
      | _ => none
  | .replyDequeue =>
      match s.replyAt, s.replyServer with
      | .dequeue, p :: rest =>
          some { s with
            replyServer := rest
            replyAt := .forward
            reply := s.reply.dequeReply (.packet p) }
      | _, _ => none
  | .replyForward =>
      match s.replyAt with
      | .forward =>
          some { s with
            replyClient := s.replyClient ++ [s.reply.simicsData]
            replyAt := .dequeue
            reply := s.reply.forwardReply simicsPktSize }
      | _ => none
  | .rtlDequeue =>
      match s.requestServer with
      | p :: rest => some { s with requestServer := rest, rtlDequeued := s.rtlDequeued ++ [p] }
      | [] => none
  | .rtlEnqueue p =>
      some { s with replyServer := s.replyServer ++ [p], rtlEnqueued := s.rtlEnqueued ++ [p] }

/-! ## The pair of queues that the relay stands for -/

-- what a thread has dequeued and not forwarded yet
def ThreadAt.held (pc : ThreadAt) (t : RelayThread) : List SimicsTransaction :=
  if pc = .forward then [t.simicsData] else []

-- the packets on the way to the RTL side, the oldest first, and those on the way back
def FifoState.requestPath (s : FifoState) : List SimicsTransaction :=
  s.requestServer ++ s.accessAt.held s.access ++ s.requestClient

def FifoState.replyPath (s : FifoState) : List SimicsTransaction :=
  s.replyClient ++ s.replyAt.held s.reply ++ s.replyServer

abbrev RelayQueues := QueuePair SimicsTransaction SimicsTransaction

structure FifoState.Refines (s : FifoState) (q : RelayQueues) : Prop where
  hostEnqueued : q.request.put = s.hostEnqueued
  rtlDequeued : q.request.got = s.rtlDequeued
  requestPath : q.request.contents = s.requestPath
  rtlEnqueued : q.reply.put = s.rtlEnqueued
  hostDequeued : q.reply.got = s.hostDequeued
  replyPath : q.reply.contents = s.replyPath

-- the threads' own steps are internal to the pair of queues
def FifoLabel.onQueues : FifoLabel → PairLabel SimicsTransaction SimicsTransaction
  | .hostEnqueue p => .clientPut p
  | .hostDequeue => .clientGet
  | .rtlDequeue => .serverGet
  | .rtlEnqueue p => .serverPut p
  | _ => .internal

theorem refines_step {s s' : FifoState} {l : FifoLabel} {q : RelayQueues} (h : s.Refines q)
    (hstep : fifoStep s l = some s') : ∃ q', q.Step l.onQueues q' ∧ s'.Refines q' := by
  cases l with
  | hostEnqueue p =>
      cases hstep
      refine ⟨_, .clientPut p, { h with hostEnqueued := ?_, requestPath := ?_ }⟩
      · simp only [Queue.enqueue, h.hostEnqueued]
      · simp only [Queue.enqueue, h.requestPath, FifoState.requestPath, List.append_assoc]
  | hostDequeue =>
      simp only [fifoStep] at hstep
      split at hstep
      · next p rest hpipe =>
          cases hstep
          have hcontents : q.reply.contents =
              p :: (rest ++ s.replyAt.held s.reply ++ s.replyServer) := by
            simp only [h.replyPath, FifoState.replyPath, hpipe, List.cons_append]
          refine ⟨_, .clientGet hcontents, { h with hostDequeued := ?_, replyPath := ?_ }⟩
          · simp only [Queue.dequeue, h.hostDequeued]
          · simp only [Queue.dequeue, FifoState.replyPath]
      · cases hstep
  | openClientPipe ret =>
      simp only [fifoStep] at hstep
      split at hstep
      · next haccess hreply =>
          -- neither thread holds a packet before or after
          by_cases hret : ret < 0
          · rw [if_pos hret] at hstep
            cases hstep
            refine ⟨q, .internal, { h with requestPath := ?_ }⟩
            simp [h.requestPath, FifoState.requestPath, ThreadAt.held, haccess]
          · rw [if_neg hret] at hstep
            cases hstep
            refine ⟨q, .internal, { h with requestPath := ?_, replyPath := ?_ }⟩
            · simp [h.requestPath, FifoState.requestPath, ThreadAt.held, haccess]
            · simp [h.replyPath, FifoState.replyPath, ThreadAt.held, hreply]
      · cases hstep
  | accessDequeue =>
      simp only [fifoStep] at hstep
      split at hstep
      · next p rest haccess hpipe =>
          cases hstep
          refine ⟨q, .internal, { h with requestPath := ?_ }⟩
          simp [h.requestPath, FifoState.requestPath, ThreadAt.held, haccess, hpipe]
      · cases hstep
  | accessForward =>
      simp only [fifoStep] at hstep
      split at hstep
      · next haccess =>
          cases hstep
          refine ⟨q, .internal, { h with requestPath := ?_ }⟩
          simp [h.requestPath, FifoState.requestPath, ThreadAt.held, haccess]
      · cases hstep
  | replyDequeue =>
      simp only [fifoStep] at hstep
      split at hstep
      · next p rest hreply hpipe =>
          cases hstep
          refine ⟨q, .internal, { h with replyPath := ?_ }⟩
          simp [h.replyPath, FifoState.replyPath, ThreadAt.held, hreply, hpipe]
      · cases hstep
  | replyForward =>
      simp only [fifoStep] at hstep
      split at hstep
      · next hreply =>
          cases hstep
          refine ⟨q, .internal, { h with replyPath := ?_ }⟩
          simp [h.replyPath, FifoState.replyPath, ThreadAt.held, hreply]
      · cases hstep
  | rtlDequeue =>
      simp only [fifoStep] at hstep
      split at hstep
      · next p rest hpipe =>
          cases hstep
          have hcontents : q.request.contents =
              p :: (rest ++ s.accessAt.held s.access ++ s.requestClient) := by
            simp only [h.requestPath, FifoState.requestPath, hpipe, List.cons_append]
          refine ⟨_, .serverGet hcontents, { h with rtlDequeued := ?_, requestPath := ?_ }⟩
          · simp only [Queue.dequeue, h.rtlDequeued]
          · simp only [Queue.dequeue, FifoState.requestPath]
      · cases hstep
  | rtlEnqueue p =>
      cases hstep
      refine ⟨_, .serverPut p, { h with rtlEnqueued := ?_, replyPath := ?_ }⟩
      · simp only [Queue.enqueue, h.rtlEnqueued]
      · simp only [Queue.enqueue, h.replyPath, FifoState.replyPath, List.append_assoc]

/-- The relay refines the pair of queues. -/
theorem fifo_refines {s : FifoState} (h : Reaches (stepOf fifoStep) .init s) :
    ∃ q : RelayQueues, Reaches QueuePair.Step .empty q ∧ s.Refines q := by
  have hinit : FifoState.init.Refines .empty := ⟨rfl, rfl, rfl, rfl, rfl, rfl⟩
  exact h.simulate hinit fun _ _ _ _ href hstep => refines_step href hstep

-- a request that goes all the way and comes back
example (p : SimicsTransaction) :
    (exec fifoStep .init [.openClientPipe 0, .hostEnqueue p, .accessDequeue, .accessForward,
      .rtlDequeue, .rtlEnqueue p, .replyDequeue, .replyForward, .hostDequeue]).map
        (fun s => (s.hostEnqueued, s.hostDequeued)) = some ([p], [p]) := by
  simp [exec, fifoStep, FifoState.init]

theorem FifoState.Refines.conserved {s : FifoState} {q : RelayQueues} (h : s.Refines q) :
    s.hostEnqueued = s.rtlDequeued ++ s.requestPath ∧
      s.rtlEnqueued = s.hostDequeued ++ s.replyPath := by
  constructor
  · rw [← h.hostEnqueued, ← h.rtlDequeued, ← h.requestPath, q.request.conserved]
  · rw [← h.rtlEnqueued, ← h.hostDequeued, ← h.replyPath, q.reply.conserved]

/-! ## A host that makes one access after another -/

-- the RTL side answers each request once, in order and with its packet number
def FifoLabel.Server (s : FifoState) : FifoLabel → Prop
  | .hostEnqueue _ => False
  | .hostDequeue => False
  | .rtlEnqueue p =>
      ∃ req, s.rtlDequeued[s.rtlEnqueued.length]? = some req ∧ p.packetNumber = req.packetNumber
  | _ => True

/-- The device writes to `request_client` and reads from `reply_client`; both succeed with a whole
packet. -/
def fifoHost : PipeSystem FifoState where
  write := fun s pipe p r s' =>
    pipe = .requestClient ∧ r = simicsPktSize ∧ fifoStep s (.hostEnqueue p) = some s'
  read := fun s pipe r s' =>
    pipe = .replyClient ∧ ∃ p rest, s.replyClient = p :: rest ∧ r = .packet p ∧
      fifoStep s .hostDequeue = some s'
  env := fun s s' => ∃ l, FifoLabel.Server s l ∧ fifoStep s l = some s'

-- the packets that are anywhere between the enqueue and the dequeue of the host
def FifoState.inFlight (s : FifoState) : ℕ :=
  s.requestPath.length + (s.rtlDequeued.length - s.rtlEnqueued.length) + s.replyPath.length

def SameNumber (req reply : SimicsTransaction) : Prop := reply.packetNumber = req.packetNumber

/-- The relay with an RTL side that has answered in order so far, and the queues it stands for. -/
structure Serving (s : FifoState) (q : RelayQueues) : Prop extends s.Refines q where
  answers : Answers SameNumber q.request.got q.reply.put

theorem Serving.inFlight {s : FifoState} {q : RelayQueues} (h : Serving s q) :
    s.inFlight + q.reply.got.length = q.request.put.length := by
  have hout := QueuePair.outstanding_eq h.answers
  rwa [QueuePair.outstanding, h.requestPath, h.rtlDequeued, h.rtlEnqueued, h.replyPath] at hout

-- a step of the server side changes neither what the host has put in nor what it has got
theorem Serving.server {s s' : FifoState} {q : RelayQueues} (h : Serving s q) {l : FifoLabel}
    (hserver : FifoLabel.Server s l) (hstep : fifoStep s l = some s') :
    ∃ q', Serving s' q' ∧ q'.request.put = q.request.put ∧ q'.reply.got = q.reply.got := by
  obtain ⟨q', hq, href⟩ := refines_step h.toRefines hstep
  cases l with
  | hostEnqueue p => exact hserver.elim
  | hostDequeue => exact hserver.elim
  | rtlDequeue =>
      cases hq with
      | serverGet hcontents => exact ⟨_, ⟨href, h.answers.request _⟩, rfl, rfl⟩
  | rtlEnqueue p =>
      cases hq
      obtain ⟨req, hreq, hnumber⟩ := hserver
      rw [← h.rtlDequeued, ← h.rtlEnqueued] at hreq
      exact ⟨_, ⟨href, h.answers.reply hreq hnumber⟩, rfl, rfl⟩
  | _ =>
      cases hq
      exact ⟨q, ⟨href, h.answers⟩, rfl, rfl⟩

-- no step rewrites what the RTL side has done
theorem fifoStep_history {s s' : FifoState} {l : FifoLabel} (hstep : fifoStep s l = some s') :
    s.rtlDequeued <+: s'.rtlDequeued ∧ s.rtlEnqueued <+: s'.rtlEnqueued := by
  have hsame : ∀ t : FifoState, t.rtlDequeued = s.rtlDequeued → t.rtlEnqueued = s.rtlEnqueued →
      s.rtlDequeued <+: t.rtlDequeued ∧ s.rtlEnqueued <+: t.rtlEnqueued := by
    intro t hdequeued henqueued
    rw [hdequeued, henqueued]
    exact ⟨List.prefix_refl _, List.prefix_refl _⟩
  cases l with
  | rtlDequeue =>
      simp only [fifoStep] at hstep
      split at hstep
      · cases hstep
        exact ⟨List.prefix_append _ _, List.prefix_refl _⟩
      · cases hstep
  | rtlEnqueue p =>
      cases hstep
      exact ⟨List.prefix_refl _, List.prefix_append _ _⟩
  | hostEnqueue p =>
      cases hstep
      exact hsame _ rfl rfl
  | openClientPipe ret =>
      simp only [fifoStep] at hstep
      split at hstep
      · split at hstep
        · cases hstep
          exact hsame _ rfl rfl
        · cases hstep
          exact hsame _ rfl rfl
      · cases hstep
  | _ =>
      simp only [fifoStep] at hstep
      split at hstep
      · cases hstep
        exact hsame _ rfl rfl
      · cases hstep

/-- `rd` is what the RTL side answered to `spd`. -/
def FifoState.Answered (s : FifoState) (spd rd : SimicsTransaction) : Prop :=
  SameNumber spd rd ∧ ∃ k : ℕ, s.rtlDequeued[k]? = some spd ∧ s.rtlEnqueued[k]? = some rd

theorem FifoState.Answered.step {s s' : FifoState} {l : FifoLabel} {spd rd : SimicsTransaction}
    (h : s.Answered spd rd) (hstep : fifoStep s l = some s') : s'.Answered spd rd := by
  obtain ⟨⟨dequeued, hdequeued⟩, ⟨enqueued, henqueued⟩⟩ := fifoStep_history hstep
  obtain ⟨hnumber, k, hspd, hrd⟩ := h
  refine ⟨hnumber, k, ?_, ?_⟩
  · rw [← hdequeued]
    exact getElem?_append_of_some hspd
  · rw [← henqueued]
    exact getElem?_append_of_some hrd

-- nothing is on the way
def FifoState.Idle (s : FifoState) : Prop :=
  ∃ q, Serving s q ∧ q.request.put.length = q.reply.got.length

-- the one packet on the way is `spd` or its reply
def FifoState.Sent (spd : SimicsTransaction) (s : FifoState) : Prop :=
  ∃ q, Serving s q ∧ q.request.put.length = q.reply.got.length + 1 ∧
    q.request.put[q.reply.got.length]? = some spd

theorem FifoState.Idle.server {s s' : FifoState} (h : s.Idle) {l : FifoLabel}
    (hserver : FifoLabel.Server s l) (hstep : fifoStep s l = some s') : s'.Idle := by
  obtain ⟨q, hq, hlen⟩ := h
  obtain ⟨q', hq', hput, hgot⟩ := hq.server hserver hstep
  exact ⟨q', hq', by rw [hput, hgot, hlen]⟩

theorem FifoState.Sent.server {spd : SimicsTransaction} {s s' : FifoState} (h : s.Sent spd)
    {l : FifoLabel} (hserver : FifoLabel.Server s l) (hstep : fifoStep s l = some s') :
    s'.Sent spd := by
  obtain ⟨q, hq, hlen, hspd⟩ := h
  obtain ⟨q', hq', hput, hgot⟩ := hq.server hserver hstep
  exact ⟨q', hq', by rw [hput, hgot, hlen], by rw [hput, hgot, hspd]⟩

theorem FifoState.Idle.inFlight_le {s : FifoState} (h : s.Idle) : s.inFlight ≤ 1 := by
  obtain ⟨q, hq, hlen⟩ := h
  have hcount := hq.inFlight
  omega

theorem FifoState.Sent.inFlight_le {spd : SimicsTransaction} {s : FifoState} (h : s.Sent spd) :
    s.inFlight ≤ 1 := by
  obtain ⟨q, hq, hlen, _⟩ := h
  have hcount := hq.inFlight
  omega

theorem FifoState.Idle.enqueue {spd : SimicsTransaction} {s s' : FifoState} (h : s.Idle)
    (hstep : fifoStep s (.hostEnqueue spd) = some s') : s'.Sent spd := by
  obtain ⟨q, hq, hlen⟩ := h
  obtain ⟨q', hput, href⟩ := refines_step hq.toRefines hstep
  cases hput
  refine ⟨_, ⟨href, hq.answers⟩, ?_, ?_⟩
  · simp only [Queue.enqueue, List.length_append, List.length_singleton, hlen]
  · simp only [Queue.enqueue, ← hlen, List.getElem?_concat_length]

theorem FifoState.Sent.dequeue {spd p : SimicsTransaction} {rest : List SimicsTransaction}
    {s s' : FifoState} (h : s.Sent spd) (hpipe : s.replyClient = p :: rest)
    (hstep : fifoStep s .hostDequeue = some s') : s'.Idle ∧ s'.Answered spd p := by
  obtain ⟨q, hq, hlen, hspd⟩ := h
  have hcontents : q.reply.contents = p :: (rest ++ s.replyAt.held s.reply ++ s.replyServer) := by
    simp only [hq.replyPath, FifoState.replyPath, hpipe, List.cons_append]
  obtain ⟨req, hgot, hput, hnumber⟩ := QueuePair.next_reply hq.answers hcontents
  -- the request at that place is the one that is on the way
  have hreq : req = spd := Option.some.inj (hput.symm.trans hspd)
  have hnext := q.reply.next hcontents
  have hanswered : s.Answered spd p := by
    rw [hq.rtlDequeued, hreq] at hgot
    rw [hq.rtlEnqueued] at hnext
    rw [hreq] at hnumber
    exact ⟨hnumber, _, hgot, hnext⟩
  refine ⟨?_, hanswered.step hstep⟩
  obtain ⟨q', hget, href⟩ := refines_step hq.toRefines hstep
  cases hget with
  | clientGet hcontents' =>
      refine ⟨_, ⟨href, hq.answers⟩, ?_⟩
      simp only [Queue.dequeue, List.length_append, List.length_singleton, hlen]

def fifoPlan (ok : (c : SysCall) → c.Ret → Prop) (spd : SimicsTransaction) :
    PipePlan fifoHost ok (fun s => s.inFlight ≤ 1) spd where
  idle := FifoState.Idle
  sent := FifoState.Sent spd
  done := fun r s => s.Idle ∧ ∃ p, r = .packet p ∧ s.Answered spd p
  idle_env := fun _ _ ⟨_, hserver, hstep⟩ h => h.server hserver hstep
  sent_env := fun _ _ ⟨_, hserver, hstep⟩ h => h.server hserver hstep
  done_env := by
    rintro r s s' ⟨l, hserver, hstep⟩ ⟨hidle, p, hr, hanswered⟩
    exact ⟨hidle.server hserver hstep, p, hr, hanswered.step hstep⟩
  idle_inv := fun _ h => h.inFlight_le
  sent_inv := fun _ h => h.inFlight_le
  done_inv := fun _ _ h => h.1.inFlight_le
  write := fun _ _ _ _ hidle _ ⟨_, _, hstep⟩ => hidle.enqueue hstep
  read := by
    rintro s r s' hsent ⟨_, p, rest, hpipe, hr, hstep⟩
    obtain ⟨hidle, hanswered⟩ := hsent.dequeue hpipe hstep
    exact ⟨hidle, p, hr, hanswered⟩

/-- The call returned a whole packet, and that packet is the RTL side's answer to the one it sent.
-/
def FifoState.OwnReply (s : FifoState) (res : AccessResult) : Prop :=
  res.retval = simicsPktSize ∧ s.Answered res.spd res.rd

-- how an access of a session ends when opens are restricted to the results in `ok`
def FifoState.Completed (ok : (c : SysCall) → c.Ret → Prop) (s : FifoState) (a : Access)
    (res : AccessResult) : Prop :=
  (res = a.noExchange res.spd ∧ (a.timeEndFlag = true ∨ OpenMayFail ok)) ∨ s.OwnReply res

theorem FifoState.Completed.step {ok : (c : SysCall) → c.Ret → Prop} {s s' : FifoState} {a : Access}
    {res : AccessResult} (h : s.Completed ok a res) {l : FifoLabel}
    (hstep : fifoStep s l = some s') : s'.Completed ok a res := by
  rcases h with hnone | ⟨hfull, hanswered⟩
  · exact Or.inl hnone
  · exact Or.inr ⟨hfull, hanswered.step hstep⟩

theorem access_completed (ok : (c : SysCall) → c.Ret → Prop) (a : Access) (lib : DeviceLib)
    {h : Host FifoState} (hidle : h.pipes.Idle) :
    (accessBody a lib).wp (fifoHost.world.only ok) (fun h => h.pipes.inFlight ≤ 1)
      (fun x h' => h'.pipes.Idle ∧ h'.pipes.Completed ok a x.1) h := by
  have hplan := simicsSendAccessToCosim_wp a lib (fifoPlan ok _).toAccessPlan (w := h)
    ⟨trivial, hidle⟩
  have hbody : (simicsSendAccessToCosim a).wp (fifoHost.world.only ok)
      (fun h => h.pipes.inFlight ≤ 1)
      (fun res _ h' => h'.pipes.Idle ∧ h'.pipes.Completed ok a res) lib h := by
    refine LibM.wp_mono ?_ hplan
    rintro res lib' h' ⟨_, ⟨rfl, hfails, _, hidle'⟩ | ⟨r, rfl, _, hidle', p, rfl, hanswered⟩⟩
    · exact ⟨hidle', Or.inl ⟨rfl, hfails⟩⟩
    · refine ⟨hidle', Or.inr ⟨ReadResult.packet_ret p, ?_⟩⟩
      dsimp only
      rw [ReadResult.store_packet]
      exact hanswered
  exact hbody

/-- One access after another: at every moment at most one packet is on the way, and every access
that has completed either made no exchange or has its own reply. -/
theorem session_completed {P : Access → Prop} {ok : (c : SysCall) → c.Ret → Prop} {lib : DeviceLib}
    {fds : ℤ → Option PipeName} {s : HostClient FifoState}
    (hrun : RunsTo (Client.Step fifoHost.world accessBody) (Client.Meets (fun _ a => P a) ok)
      (HostClient.init lib ⟨fds, .init⟩) s) :
    s.world.pipes.inFlight ≤ 1 ∧ ∀ x ∈ s.log, P x.1 ∧ s.world.pipes.Completed ok x.1 x.2 := by
  have hidle : FifoState.init.Idle :=
    ⟨.empty, ⟨⟨rfl, rfl, rfl, rfl, rfl, rfl⟩, answers_nil _⟩, rfl⟩
  have hsteady : ∀ _ : DeviceLib, Steady fifoHost.world (fun h => h.pipes.inFlight ≤ 1)
      (fun h => h.pipes.Idle) := by
    refine fun _ => ⟨?_, fun _ h => h.inFlight_le⟩
    rintro h h' ⟨⟨l, hserver, hstep⟩, _⟩ hidle
    exact hidle.server hserver hstep
  have henv : ∀ (a : Access) (res : AccessResult) (h h' : Host FifoState), fifoHost.world.env h h' →
      P a ∧ h.pipes.Completed ok a res → P a ∧ h'.pipes.Completed ok a res := by
    rintro a res h h' ⟨⟨l, _, hstep⟩, _⟩ ⟨hP, hcompleted⟩
    exact ⟨hP, hcompleted.step hstep⟩
  have hcall : ∀ (a : Access) (res : AccessResult) (h : Host FifoState) (c : SysCall) (r : c.Ret)
      (h' : Host FifoState), fifoHost.world.call h c r h' →
      P a ∧ h.pipes.Completed ok a res → P a ∧ h'.pipes.Completed ok a res := by
    intro a res h c r h' hcall ⟨hP, hcompleted⟩
    refine ⟨hP, PipeSystem.call_stable (P := fun s => s.Completed ok a res) ?_ ?_ hcall hcompleted⟩
    · rintro s pipe p r s' ⟨_, _, hstep⟩ h
      exact h.step hstep
    · rintro s pipe r s' ⟨_, p, rest, _, _, hstep⟩ h
      exact h.step hstep
  refine Client.run (G := fun a res h => P a ∧ h.pipes.Completed ok a res) hsteady henv hcall ?_
    hrun rfl rfl hidle
  intro lib h a hidle hP
  exact Prog.wp_mono (fun _ _ hx => ⟨hx.1, hP, hx.2⟩) (access_completed ok a lib hidle)

-- the calls of a host whose pipes open
def pipesOpen : (c : SysCall) → c.Ret → Prop
  | .getenv .cxlRelayServerPath, r => r.isSome
  | .open _, fd => 0 ≤ fd
  | _, _ => True

theorem not_openMayFail_pipesOpen : ¬ OpenMayFail pipesOpen := by
  rintro (hnone | ⟨path, fd, hneg, hopen⟩)
  · exact absurd hnone Bool.false_ne_true
  · exact absurd hopen (Int.not_le.mpr hneg)

/-- The relay in FIFO mode is a pair of queues, and a host that makes one access after another
against an RTL side that answers in order gets its own replies. -/
theorem fifo_mode_transparent :
    (∀ s, Reaches (stepOf fifoStep) .init s →
      s.hostEnqueued =
        s.rtlDequeued ++ (s.requestServer ++ s.accessAt.held s.access ++ s.requestClient) ∧
      s.rtlEnqueued =
        s.hostDequeued ++ (s.replyClient ++ s.replyAt.held s.reply ++ s.replyServer)) ∧
    (∀ (lib : DeviceLib) (fds : ℤ → Option PipeName) (s : HostClient FifoState),
      Reaches (Client.Step fifoHost.world accessBody) (HostClient.init lib ⟨fds, .init⟩) s →
      s.world.pipes.inFlight ≤ 1 ∧
        ∀ x ∈ s.log, x.2 = x.1.noExchange x.2.spd ∨ s.world.pipes.OwnReply x.2) ∧
    -- once the pipes open, every access but the one that ends the timing makes an exchange
    ∀ (lib : DeviceLib) (fds : ℤ → Option PipeName) (s : HostClient FifoState),
      RunsTo (Client.Step fifoHost.world accessBody)
        (Client.Meets (fun _ a => a.timeEndFlag = false) pipesOpen)
        (HostClient.init lib ⟨fds, .init⟩) s →
      ∀ x ∈ s.log, s.world.pipes.OwnReply x.2 := by
  refine ⟨fun s hs => ?_, fun lib fds s hs => ?_, fun lib fds s hs x hx => ?_⟩
  · obtain ⟨q, _, href⟩ := fifo_refines hs
    exact href.conserved
  · have hany : ∀ (s : HostClient FifoState) (l : ClientLabel SysCall SysCall.Ret Access), True →
        Client.Meets (fun _ _ => True) (fun _ _ => True) s l := by
      intro s l _
      cases l <;> trivial
    obtain ⟨hone, hlog⟩ := session_completed (P := fun _ => True) (hs.mono hany)
    refine ⟨hone, fun x hx => ?_⟩
    rcases (hlog x hx).2 with ⟨hnone, _⟩ | hown
    · exact Or.inl hnone
    · exact Or.inr hown
  · obtain ⟨hend, ⟨_, htimed | hfail⟩ | hown⟩ := (session_completed hs).2 x hx
    · rw [hend] at htimed
      cases htimed
    · exact absurd hfail not_openMayFail_pipesOpen
    · exact hown

end SimConnect
