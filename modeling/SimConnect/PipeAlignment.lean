import SimConnect.Pipes
import SimConnect.Foundation.Queue
import Mathlib.Logic.Function.Basic

/-!
# Packets on the byte pipes

A named pipe is a queue of bytes with a capacity of its own.  Whoever calls the `simics_pipe_send_*`
and `simics_pipe_receive_*` functions, in any order, a packet is small enough for `write` to take it
whole or not at all, so what lies in a pipe stays cut at packet boundaries.
-/

open SimConnect.Foundation

namespace SimConnect

/-! ## write and read on a pipe -/

/-- The capacity of each pipe in bytes, and the size up to which a write is not split; POSIX asks
for at least 512. -/
structure PipeLimits where
  capacity : PipeName → ℕ
  pipeBuf : ℕ
  pipeBuf_ge : 512 ≤ pipeBuf

/-- A `write` of `data` to a pipe that holds `pipe`: it fails, or takes the first `k` bytes.  `none`
where the system cannot do that. -/
def writePipe (limits : PipeLimits) (name : PipeName) (data pipe : List UInt8) :
    Option ℕ → Option (ℤ × List UInt8)
  | none => some (-1, pipe)
  | some k =>
      if k ≤ data.length ∧ pipe.length + k ≤ limits.capacity name ∧
          (data.length ≤ limits.pipeBuf → k = data.length) then
        some (k, pipe ++ data.take k)
      else
        none

theorem simicsPktSize_le_pipeBuf (limits : PipeLimits) : simicsPktSize ≤ limits.pipeBuf := by
  have hge := limits.pipeBuf_ge
  have hsize : simicsPktSize = 288 := rfl
  omega

-- a packet goes into the pipe whole or not at all
theorem writePipe_packet {limits : PipeLimits} {name : PipeName} {p : SimicsTransaction}
    {pipe pipe' : List UInt8} {taken : Option ℕ} {retval : ℤ}
    (h : writePipe limits name p.image pipe taken = some (retval, pipe')) :
    (retval = -1 ∧ pipe' = pipe) ∨ (retval = simicsPktSize ∧ pipe' = pipe ++ p.image) := by
  cases taken with
  | none =>
      have heq := Option.some.inj h
      exact Or.inl ⟨(congrArg Prod.fst heq).symm, (congrArg Prod.snd heq).symm⟩
  | some k =>
      change (if _ then _ else none) = _ at h
      split at h
      case isTrue hk =>
        have hall : k = p.image.length := hk.2.2 (by
          rw [p.image_length]
          exact simicsPktSize_le_pipeBuf limits)
        have heq := Option.some.inj h
        have hret : (k : ℤ) = retval := congrArg Prod.fst heq
        have hpipe : pipe ++ p.image.take k = pipe' := congrArg Prod.snd heq
        rw [← hret, ← hpipe, hall, List.take_length, p.image_length]
        exact Or.inr ⟨rfl, rfl⟩
      case isFalse => cases h

theorem writePipe_fits {limits : PipeLimits} {name : PipeName} {p : SimicsTransaction}
    {pipe : List UInt8} (h : pipe.length + simicsPktSize ≤ limits.capacity name) :
    writePipe limits name p.image pipe (some simicsPktSize) =
      some ((simicsPktSize : ℤ), pipe ++ p.image) := by
  have htakes : simicsPktSize ≤ p.image.length ∧
      pipe.length + simicsPktSize ≤ limits.capacity name ∧
      (p.image.length ≤ limits.pipeBuf → simicsPktSize = p.image.length) := by
    rw [p.image_length]
    exact ⟨Nat.le_refl _, h, fun _ => rfl⟩
  change (if _ then _ else none) = _
  rw [if_pos htakes, show p.image.take simicsPktSize = p.image from
    List.take_of_length_le p.image_length.le]

/-! ## The pipes with their history -/

/-- `sent` are the packets whose send did not return NULL, `received` those that a receive with a
positive count left in the caller's packet; `counts` is what the receives returned. -/
structure PipeHistory where
  bytes : List UInt8
  sent : List SimicsTransaction
  received : List SimicsTransaction
  counts : List ℤ

def PipeHistory.empty : PipeHistory where
  bytes := []
  sent := []
  received := []
  counts := []

/-- One call on a pipe, whoever makes it.  `taken` is how much the write takes, `fails` says that
the read fails. -/
inductive PipeUse
  | send (name : PipeName) (simicsData : SimicsTransaction) (taken : Option ℕ)
  | receive (name : PipeName) (simicsData : SimicsTransaction) (fails : Bool)

def sendOn : PipeName → ℤ → SimicsTransaction → Option SimicsTransaction
  | .requestClient => simicsPipeSendRequestClientTlp
  | .replyClient => simicsPipeSendReplyClientTlp
  | .requestServer => simicsPipeSendRequestServerTlp
  | .replyServer => simicsPipeSendReplyServerTlp

def receiveOn : PipeName → ReadResult → SimicsTransaction → ℤ × SimicsTransaction
  | .requestClient => simicsPipeReceiveRequestClientTlp
  | .replyClient => simicsPipeReceiveReplyRequestClientTlp
  | .requestServer => simicsPipeReceiveRequestServerTlp
  | .replyServer => simicsPipeReceiveReplyRequestServerTlp

def PipeHistory.send (history : PipeHistory) (limits : PipeLimits) (name : PipeName)
    (simicsData : SimicsTransaction) (taken : Option ℕ) : Option PipeHistory :=
  (writePipe limits name simicsData.image history.bytes taken).map fun (retval, bytes) =>
    { history with
      bytes
      sent := history.sent ++ (sendOn name retval simicsData).toList }

def PipeHistory.receive (history : PipeHistory) (name : PipeName) (simicsData : SimicsTransaction)
    (fails : Bool) : PipeHistory :=
  let (r, bytes) := if fails then (.fail, history.bytes) else readPipe history.bytes
  let (size, simicsData) := receiveOn name r simicsData
  { history with
    bytes
    received := if 0 < size then history.received ++ [simicsData] else history.received
    counts := history.counts ++ [size] }

def pipeUseStep (limits : PipeLimits) (s : PipeName → PipeHistory) :
    PipeUse → Option (PipeName → PipeHistory)
  | .send name simicsData taken =>
      ((s name).send limits name simicsData taken).map fun history => Function.update s name history
  | .receive name simicsData fails =>
      some (Function.update s name ((s name).receive name simicsData fails))

/-! ## Whole packets -/

/-- The pipe is the queue `q` of packets. -/
structure PipeHistory.Holds (history : PipeHistory) (q : Queue SimicsTransaction) : Prop where
  bytes : history.bytes = packetBytes q.contents
  sent : history.sent = q.put
  received : history.received = q.got
  counts : ∀ size ∈ history.counts, 0 < size → size = simicsPktSize

theorem holds_empty : PipeHistory.empty.Holds .empty where
  bytes := rfl
  sent := rfl
  received := rfl
  counts := fun _ h => nomatch h

-- simics_pipe_send_request_server_tlp differs from the others on results that it cannot get here
theorem sendOn_eq (name : PipeName) {retval : ℤ} (h : retval = -1 ∨ 0 < retval)
    (p : SimicsTransaction) : sendOn name retval p = pipeSend retval p := by
  cases name with
  | requestClient => rfl
  | replyClient => rfl
  | requestServer => exact simicsPipeSendRequestServerTlp_eq h p
  | replyServer => rfl

theorem sendOn_failed (name : PipeName) (p : SimicsTransaction) : sendOn name (-1) p = none := by
  rw [sendOn_eq name (Or.inl rfl), pipeSend, if_pos rfl]

theorem sendOn_whole (name : PipeName) (p : SimicsTransaction) :
    sendOn name simicsPktSize p = some p := by
  rw [sendOn_eq name (Or.inr (by decide)), pipeSend, if_neg (by decide)]

theorem receiveOn_eq (name : PipeName) : receiveOn name = pipeReceive := by
  cases name with
  | requestClient => rfl
  | replyClient => rfl
  | requestServer => rfl
  | replyServer => rfl

theorem PipeHistory.send_fits {history : PipeHistory} {limits : PipeLimits} {name : PipeName}
    {p : SimicsTransaction} (h : history.bytes.length + simicsPktSize ≤ limits.capacity name) :
    history.send limits name p (some simicsPktSize) =
      some { history with bytes := history.bytes ++ p.image, sent := history.sent ++ [p] } := by
  simp only [PipeHistory.send, writePipe_fits h, Option.map_some, sendOn_whole, Option.toList_some]

-- a read that finds a packet
theorem PipeHistory.receive_packet {history : PipeHistory} {p : SimicsTransaction}
    {rest : List UInt8} (h : history.bytes = p.image ++ rest) (name : PipeName)
    (simicsData : SimicsTransaction) :
    history.receive name simicsData false =
      { history with
        bytes := rest
        received := history.received ++ [p]
        counts := history.counts ++ [(simicsPktSize : ℤ)] } := by
  have hsize := ReadResult.packet_ret p
  have hpos : (0 : ℤ) < simicsPktSize := by decide
  unfold PipeHistory.receive
  simp only [receiveOn_eq, h, readPipe_packet, pipeReceive, hsize, ReadResult.store_packet, hpos,
    if_true, Bool.false_eq_true, if_false]

theorem PipeHistory.Holds.send {history history' : PipeHistory} {q : Queue SimicsTransaction}
    (h : history.Holds q) {limits : PipeLimits} {name : PipeName} {p : SimicsTransaction}
    {taken : Option ℕ} (hsend : history.send limits name p taken = some history') :
    ∃ q', history'.Holds q' := by
  obtain ⟨⟨retval, bytes⟩, hwrite, hhistory⟩ := Option.map_eq_some_iff.mp hsend
  rw [← hhistory]
  cases writePipe_packet hwrite with
  | inl hfailed =>
      refine ⟨q, ?_, ?_, h.received, h.counts⟩
      · exact hfailed.2.trans h.bytes
      · change history.sent ++ (sendOn name retval p).toList = _
        rw [hfailed.1, sendOn_failed, Option.toList_none, List.append_nil, h.sent]
  | inr hwhole =>
      refine ⟨q.enqueue p, ?_, ?_, h.received, h.counts⟩
      · change bytes = packetBytes (q.contents ++ [p])
        rw [hwhole.2, h.bytes, packetBytes_append, packetBytes_cons, packetBytes_nil,
          List.append_nil]
      · change history.sent ++ (sendOn name retval p).toList = q.put ++ [p]
        rw [hwhole.1, sendOn_whole, Option.toList_some, h.sent]

-- a receive that gets nothing
theorem PipeHistory.Holds.receive_none {history : PipeHistory} {q : Queue SimicsTransaction}
    (h : history.Holds q) {size : ℤ} (hsize : ¬0 < size) (simicsData : SimicsTransaction) :
    { history with
      received := if 0 < size then history.received ++ [simicsData] else history.received
      counts := history.counts ++ [size] : PipeHistory }.Holds q := by
  refine ⟨h.bytes, h.sent, ?_, ?_⟩
  · change (if 0 < size then _ else history.received) = _
    rw [if_neg hsize, h.received]
  · rw [List.forall_mem_append, List.forall_mem_singleton]
    exact ⟨h.counts, fun hpos => absurd hpos hsize⟩

theorem PipeHistory.Holds.receive {history : PipeHistory} {q : Queue SimicsTransaction}
    (h : history.Holds q) (name : PipeName) (simicsData : SimicsTransaction) (fails : Bool) :
    ∃ q', (history.receive name simicsData fails).Holds q' := by
  cases fails with
  | true =>
      unfold PipeHistory.receive
      rw [receiveOn_eq]
      exact ⟨q, h.receive_none (by decide) simicsData⟩
  | false =>
      cases hcontents : q.contents with
      | nil =>
          -- nothing in the pipe: the read returns 0 and leaves the caller's packet
          have hbytes : history.bytes = [] := by rw [h.bytes, hcontents, packetBytes_nil]
          have hnone := h.receive_none (show ¬(0 : ℤ) < 0 by decide) simicsData
          unfold PipeHistory.receive
          rw [hbytes] at hnone ⊢
          rw [receiveOn_eq]
          exact ⟨q, hnone⟩
      | cons p rest =>
          have hbytes : history.bytes = p.image ++ packetBytes rest := by
            rw [h.bytes, hcontents, packetBytes_cons]
          rw [PipeHistory.receive_packet hbytes]
          refine ⟨q.dequeue hcontents, rfl, h.sent, ?_, ?_⟩
          · change history.received ++ [p] = q.got ++ [p]
            rw [h.received]
          · rw [List.forall_mem_append, List.forall_mem_singleton]
            exact ⟨h.counts, fun _ => rfl⟩

/-! ## Runs -/

def EachHolds (s : PipeName → PipeHistory) : Prop := ∀ name, ∃ q, (s name).Holds q

theorem EachHolds.update {s : PipeName → PipeHistory} (h : EachHolds s) {name : PipeName}
    {history : PipeHistory} (hnew : ∃ q, history.Holds q) :
    EachHolds (Function.update s name history) := by
  intro other
  by_cases heq : other = name
  · rw [heq, Function.update_self]
    exact hnew
  · rw [Function.update_of_ne heq]
    exact h other

theorem pipeUseStep_holds {limits : PipeLimits} {s s' : PipeName → PipeHistory} {use : PipeUse}
    (h : EachHolds s) (hstep : pipeUseStep limits s use = some s') : EachHolds s' := by
  cases use with
  | send name simicsData taken =>
      obtain ⟨history, hsend, hs'⟩ := Option.map_eq_some_iff.mp hstep
      obtain ⟨q, hq⟩ := h name
      rw [← hs']
      exact h.update (hq.send hsend)
  | receive name simicsData fails =>
      obtain ⟨q, hq⟩ := h name
      rw [← Option.some.inj hstep]
      exact h.update (hq.receive name simicsData fails)

-- a packet goes through an empty pipe that has room for it, after a receive that fails
theorem packet_goes_through (limits : PipeLimits) (name : PipeName) (p : SimicsTransaction)
    (h : simicsPktSize ≤ limits.capacity name) :
    ∃ s, Reaches (stepOf (pipeUseStep limits)) (fun _ => .empty) s ∧
      (s name).counts = [-1, (simicsPktSize : ℤ)] ∧ (s name).received = [p] := by
  let sent : PipeHistory := { bytes := p.image, sent := [p], received := [], counts := [] }
  have hsend : PipeHistory.empty.send limits name p (some simicsPktSize) = some sent :=
    PipeHistory.send_fits (show 0 + simicsPktSize ≤ _ by rwa [Nat.zero_add])
  have hfail : sent.receive name p true = { sent with counts := [-1] } := by
    rw [PipeHistory.receive, receiveOn_eq]
    rfl
  have hbytes : ({ sent with counts := [-1] } : PipeHistory).bytes = p.image ++ [] :=
    (List.append_nil p.image).symm
  have hgot := PipeHistory.receive_packet hbytes name p
  let s₁ : PipeName → PipeHistory := Function.update (fun _ => .empty) name sent
  let s₂ := Function.update s₁ name ((s₁ name).receive name p true)
  let s₃ := Function.update s₂ name ((s₂ name).receive name p false)
  have hstep : pipeUseStep limits (fun _ => .empty) (.send name p (some simicsPktSize)) =
      some s₁ := by
    rw [pipeUseStep, hsend, Option.map_some]
  have hreach : Reaches (stepOf (pipeUseStep limits)) (fun _ => .empty) s₃ :=
    .next (a := .receive name p false)
      (.next (a := .receive name p true) (.next .start trivial hstep) trivial rfl) trivial rfl
  refine ⟨s₃, hreach, ?_⟩
  rw [show s₃ name = _ from Function.update_self .., show s₂ name = _ from Function.update_self ..,
    show s₁ name = _ from Function.update_self .., hfail, hgot]
  exact ⟨rfl, rfl⟩

/-- Whoever sends and receives, with failed calls in between, each pipe holds the packets that were
sent on it and not received yet, every positive count is that of a packet, and the packets received
are the first of those sent. -/
theorem pipes_aligned {limits : PipeLimits} {s : PipeName → PipeHistory}
    (h : Reaches (stepOf (pipeUseStep limits)) (fun _ => .empty) s) (name : PipeName) :
    (∃ ps, (s name).bytes = packetBytes ps ∧ (s name).sent = (s name).received ++ ps) ∧
      (∀ size ∈ (s name).counts, 0 < size → size = simicsPktSize) ∧
      (s name).received <+: (s name).sent := by
  have hholds : EachHolds s :=
    RunsTo.invariant h (fun _ => ⟨.empty, holds_empty⟩) fun _ _ _ hs _ hstep =>
      pipeUseStep_holds hs hstep
  obtain ⟨q, hq⟩ := hholds name
  have hsent : (s name).sent = (s name).received ++ q.contents := by
    rw [hq.sent, hq.received, q.conserved]
  refine ⟨⟨q.contents, hq.bytes, hsent⟩, hq.counts, ?_⟩
  rw [hsent]
  exact List.prefix_append _ _

-- one packet fits, a second one would not
def smallLimits : PipeLimits where
  capacity := fun _ => 300
  pipeBuf := 4096
  pipeBuf_ge := by decide

theorem pipes_aligned_small : ∃ s : PipeName → PipeHistory,
    Reaches (stepOf (pipeUseStep smallLimits)) (fun _ => .empty) s ∧
      (s .requestServer).counts = [-1, (simicsPktSize : ℤ)] ∧
      (s .requestServer).received = [{ SimicsTransaction.zero with packetNumber := 1 }] ∧
      (∃ ps, (s .requestServer).bytes = packetBytes ps ∧
        (s .requestServer).sent = (s .requestServer).received ++ ps) ∧
      (s .requestServer).received <+: (s .requestServer).sent := by
  obtain ⟨s, hreach, hcounts, hreceived⟩ := packet_goes_through smallLimits .requestServer
    { SimicsTransaction.zero with packetNumber := 1 } (show 288 ≤ 300 by omega)
  obtain ⟨haligned, -, hprefix⟩ := pipes_aligned hreach .requestServer
  exact ⟨s, hreach, hcounts, hreceived, haligned, hprefix⟩

end SimConnect
