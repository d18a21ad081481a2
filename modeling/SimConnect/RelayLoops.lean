import SimConnect.Comm
import SimConnect.Pipes

/-!
# The three relay loops

`host_request_read_thread`, `cxl_server_fifo_access_thread` and `cxl_rtl_to_host_reply_thread`
repeat one round: look at the stop flags, dequeue into a static packet, hand that packet on.  The
result of the dequeue is stored in `retval`, and no statement looks at it.
-/

namespace SimConnect

/-! ## One round -/

-- what outlives a round; `total` is total_tlp_request_sent or total_tlp_reply_sent
structure RelayThread where
  simicsData : SimicsTransaction
  waitFifoPrintfFlag : ℕ
  total : ℕ

/-- What a thread meets in one round: the two stop flags it checks, the result of its dequeue, and
the results of the calls that forward the packet. -/
structure Round where
  stopflag : Bool
  stopThread : Bool
  read : ReadResult
  sends : ℕ → SendOutcome
  retval : ℤ

def Round.Stops (r : Round) : Bool := r.stopflag || r.stopThread

inductive RelayEvent
  | printf (format : String)
  | dequeued (retval : ℤ)
  | logged (p : SimicsTransaction) (flag : ℕ)
  | cxlSend (p : SimicsTransaction) (run : SendRun)
  | enqueued (p : SimicsTransaction) (retval : ℤ)
  | exit

-- `if(verbose) printf(..)`
def say (verbose : Bool) (format : String) : List RelayEvent :=
  if verbose then [.printf format] else []

/-- `DumpForSystemVerilogFifoInPut`; `retval` is the result of the write to `request_server`. -/
def dumpForSystemVerilogFifoInPut (verbose : Bool) (p : SimicsTransaction) (r : Round) :
    Bool × List RelayEvent :=
  let sent := simicsEnqueRequestServerTlp r.retval p
  (sent.isSome,
    say verbose "DumpForSystemVerilogFifoInPut: Writing TLP PACKET to binary fifo ..\n" ++
      .enqueued p r.retval ::
      (say verbose "DumpForSystemVerilogFifoInPut: p  = %x \n" ++
        if sent.isNone then [.printf "Could not put the TLP in the RTL queue\n"] else []))

-- CXL_Send(socket, &simics_data, ..) == 1
def sendPacket (p : SimicsTransaction) (r : Round) : Bool × List RelayEvent :=
  (decide ((cxlSend r.sends p.image).ret = 1), [.cxlSend p (cxlSend r.sends p.image)])

/-- The round of the two threads that carry requests, after the stop flags.  They differ in the name
they print and in `forward`. -/
def requestRound (name : String)
    (forward : Bool → SimicsTransaction → Round → Bool × List RelayEvent)
    (verbose : Bool) (t : RelayThread) (r : Round) : RelayThread × List RelayEvent :=
  let checking := if t.waitFifoPrintfFlag = 0 then
    say verbose (name ++ ": checking TLP request from host in the request fifo ..\n") else []
  if !useNamedPipe then
    ({ t with waitFifoPrintfFlag := t.waitFifoPrintfFlag + 1 }, checking)
  else
    let dequeued := simicsDequeRequestClientTlp r.read t.simicsData
    let simicsData := dequeued.2
    let success := forward verbose simicsData r
    ({ t with simicsData, total := if success.1 then t.total + 1 else t.total },
      checking ++ .dequeued dequeued.1 ::
        say verbose (name ++ ": received the TLP from fifo..\n") ++
        .logged simicsData 1 ::
        say verbose (name ++ ": sending host tlp request to RTL side server..\n") ++ success.2 ++
        if success.1 then
          say verbose (name ++ ": send successful..\n") ++
            say verbose (name ++ ": total_tlp_request_sent = %d\n")
        else [.printf (name ++ ": sending tlp to the server failed \n")])

/-- The round of `cxl_rtl_to_host_reply_thread`, after the stop flags. -/
def replyRound (usenetwork verbose : Bool) (t : RelayThread) (r : Round) :
    RelayThread × List RelayEvent :=
  let checking := if t.waitFifoPrintfFlag = 0 then
    say verbose "cxl_rtl_to_host_reply_thread: checking retply from RTL device in the reply fifo ..\n"
    else []
  if !useNamedPipe then
    ({ t with waitFifoPrintfFlag := t.waitFifoPrintfFlag + 1 }, checking)
  else
    let dequeued := simicsDequeReplyRequestServerTlp r.read t.simicsData
    let simicsData := dequeued.2
    let success := if usenetwork then sendPacket simicsData r else
      ((simicsEnqueReplyClientTlp r.retval simicsData).isSome,
        say verbose "cxl_rtl_to_host_reply_thread: Enquing  TLP reply to host fifo\n" ++
          [.enqueued simicsData r.retval])
    ({ t with simicsData, total := if success.1 then t.total + 1 else t.total },
      checking ++ .dequeued dequeued.1 ::
        say verbose
          "cxl_rtl_to_host_reply_thread:  received relpy from the RTL. Sending reply back to the HOST\n" ++
        success.2 ++
        if success.1 then
          .logged simicsData 2 ::
            say verbose "cxl_rtl_to_host_reply_thread: total_tlp_reply_sent = %d\n"
        else [.printf "cxl_rtl_to_host_reply_thread: sending tlp_reply to host failed\n"])

/-! ## The loops -/

/-- `while(1)` with both stop flags checked first; `onStop` follows the loop. -/
def relayLoop (round : RelayThread → Round → RelayThread × List RelayEvent)
    (onStop : List RelayEvent) : RelayThread → List Round → RelayThread × List RelayEvent
  | t, [] => (t, [])
  | t, r :: rounds =>
      if r.Stops then (t, onStop)
      else
        let now := round t r
        let later := relayLoop round onStop now.1 rounds
        (later.1, now.2 ++ later.2)

theorem relayLoop_cons (round : RelayThread → Round → RelayThread × List RelayEvent)
    (onStop : List RelayEvent) (t : RelayThread) {r : Round} (hr : r.Stops = false)
    (rounds : List Round) :
    relayLoop round onStop t (r :: rounds) =
      ((relayLoop round onStop (round t r).1 rounds).1,
        (round t r).2 ++ (relayLoop round onStop (round t r).1 rounds).2) := by
  rw [relayLoop, hr, if_neg Bool.false_ne_true]

def hostRequestReadThread (verbose : Bool) :
    RelayThread → List Round → RelayThread × List RelayEvent :=
  relayLoop (requestRound "host_request_read_thread" (fun _ => sendPacket) verbose)
    (say verbose
      "host_request_read_thread: exit: stop_request_read_thread = %d, cxl_client_stopflag=%d\n")

-- here a set flag is exit(0)
def cxlServerFifoAccessThread (verbose : Bool) :
    RelayThread → List Round → RelayThread × List RelayEvent :=
  relayLoop (requestRound "cxl_server_fifo_access_thread" dumpForSystemVerilogFifoInPut verbose)
    [.exit]

def cxlRtlToHostReplyThread (usenetwork verbose : Bool) :
    RelayThread → List Round → RelayThread × List RelayEvent :=
  relayLoop (replyRound usenetwork verbose)
    (say verbose
      "cxl_rtl_to_host_reply_thread: exit: stop_reply_thread = %d, server_stopflag=%d\n")

/-! ## What a round does apart from printing -/

def RelayEvent.isPrintf : RelayEvent → Bool
  | .printf _ => true
  | _ => false

def effects (es : List RelayEvent) : List RelayEvent := es.filter fun e => !e.isPrintf

@[simp] theorem effects_nil : effects [] = [] := rfl

@[simp] theorem effects_append (es es' : List RelayEvent) :
    effects (es ++ es') = effects es ++ effects es' :=
  List.filter_append _ _

theorem effects_cons (e : RelayEvent) (es : List RelayEvent) :
    effects (e :: es) = (if e.isPrintf then [] else [e]) ++ effects es := by
  cases h : e.isPrintf <;> simp [effects, h]

@[simp] theorem effects_say (verbose : Bool) (format : String) :
    effects (say verbose format) = [] := by
  cases verbose <;> rfl

@[simp] theorem effects_ite (c : Prop) [Decidable c] (es es' : List RelayEvent) :
    effects (if c then es else es') = if c then effects es else effects es' :=
  apply_ite effects c es es'

section Rounds

variable (verbose : Bool) (t : RelayThread) (r : Round)

theorem requestRound_thread (name : String)
    (forward : Bool → SimicsTransaction → Round → Bool × List RelayEvent) :
    (requestRound name forward verbose t r).1 =
      { t with
        simicsData := r.read.store t.simicsData
        total := if (forward verbose (r.read.store t.simicsData) r).1 then t.total + 1
          else t.total } := rfl

theorem requestRound_effects (name : String)
    (forward : Bool → SimicsTransaction → Round → Bool × List RelayEvent) :
    effects (requestRound name forward verbose t r).2 =
      .dequeued r.read.ret :: .logged (r.read.store t.simicsData) 1 ::
        effects (forward verbose (r.read.store t.simicsData) r).2 := by
  have hdeque : simicsDequeRequestClientTlp r.read t.simicsData =
      (r.read.ret, r.read.store t.simicsData) := rfl
  simp [requestRound, useNamedPipe, hdeque, effects_cons, RelayEvent.isPrintf]

theorem dumpForSystemVerilogFifoInPut_effects (p : SimicsTransaction) :
    effects (dumpForSystemVerilogFifoInPut verbose p r).2 = [.enqueued p r.retval] := by
  simp [dumpForSystemVerilogFifoInPut, effects_cons, RelayEvent.isPrintf]

theorem replyRound_effects (usenetwork : Bool) :
    effects (replyRound usenetwork verbose t r).2 =
      .dequeued r.read.ret ::
        (if usenetwork then (sendPacket (r.read.store t.simicsData) r).2
          else [.enqueued (r.read.store t.simicsData) r.retval]) ++
        if (if usenetwork then (sendPacket (r.read.store t.simicsData) r).1
          else (simicsEnqueReplyClientTlp r.retval (r.read.store t.simicsData)).isSome)
        then [.logged (r.read.store t.simicsData) 2] else [] := by
  have hdeque : simicsDequeReplyRequestServerTlp r.read t.simicsData =
      (r.read.ret, r.read.store t.simicsData) := rfl
  cases usenetwork <;>
    simp [replyRound, useNamedPipe, hdeque, sendPacket, effects_cons, RelayEvent.isPrintf]

end Rounds

/-- An account of the events of a run that does not see what is printed. -/
structure SkipsPrintf {α : Type} (F : List RelayEvent → List α) : Prop where
  append : ∀ es es', F (es ++ es') = F es ++ F es'
  printf : ∀ format, F [.printf format] = []

namespace SkipsPrintf

variable {α : Type} {F : List RelayEvent → List α} (h : SkipsPrintf F)

include h

theorem nil : F [] = [] := List.self_eq_append_right.mp (h.append [] [])

theorem effects (es : List RelayEvent) : F (effects es) = F es := by
  induction es with
  | nil => rfl
  | cons e es ih =>
      rw [effects_cons, h.append, ih, show F (e :: es) = F [e] ++ F es from h.append [e] es]
      cases e with
      | printf format =>
          rw [h.printf format]
          exact congrArg (· ++ F es) h.nil
      | _ => rfl

theorem say (verbose : Bool) (format : String) : F (say verbose format) = [] := by
  cases verbose with
  | false => exact h.nil
  | true => exact h.printf format

end SkipsPrintf

/-! ## What a round forwards -/

def RelayEvent.forwarded? : RelayEvent → Option SimicsTransaction
  | .cxlSend p _ => some p
  | .enqueued p _ => some p
  | _ => none

-- the packets passed to the forwarding call, in order
def forwarded (es : List RelayEvent) : List SimicsTransaction :=
  es.filterMap RelayEvent.forwarded?

theorem forwarded_skipsPrintf : SkipsPrintf forwarded :=
  ⟨fun _ _ => List.filterMap_append, fun _ => rfl⟩

/-- Whatever the dequeue gave, a round forwards the static packet once. -/
structure ForwardsStatic (round : RelayThread → Round → RelayThread × List RelayEvent) : Prop where
  simicsData : ∀ t r, (round t r).1.simicsData = r.read.store t.simicsData
  forwarded : ∀ t r, forwarded (round t r).2 = [r.read.store t.simicsData]

theorem requestRound_forwardsStatic (name : String) (verbose : Bool)
    (forward : Bool → SimicsTransaction → Round → Bool × List RelayEvent)
    (hforward : ∀ p r, forwarded (forward verbose p r).2 = [p]) :
    ForwardsStatic (requestRound name forward verbose) where
  simicsData := fun _ _ => rfl
  forwarded := by
    intro t r
    rw [← forwarded_skipsPrintf.effects, requestRound_effects]
    change forwarded (effects (forward verbose (r.read.store t.simicsData) r).2) = _
    rw [forwarded_skipsPrintf.effects, hforward]

theorem forwarded_sendPacket (p : SimicsTransaction) (r : Round) :
    forwarded (sendPacket p r).2 = [p] := rfl

theorem forwarded_dumpForSystemVerilogFifoInPut (verbose : Bool) (p : SimicsTransaction)
    (r : Round) : forwarded (dumpForSystemVerilogFifoInPut verbose p r).2 = [p] := by
  rw [← forwarded_skipsPrintf.effects, dumpForSystemVerilogFifoInPut_effects]
  rfl

theorem replyRound_forwardsStatic (usenetwork verbose : Bool) :
    ForwardsStatic (replyRound usenetwork verbose) where
  simicsData := fun _ _ => rfl
  forwarded := by
    intro t r
    rw [← forwarded_skipsPrintf.effects, replyRound_effects]
    cases usenetwork
    all_goals
      rw [forwarded_skipsPrintf.append, apply_ite forwarded]
      exact congrArg _ (ite_self _)

/-! ## Forwarded packets against dequeued packets -/

-- the rounds that get past the stop flags
def live (rounds : List Round) : List Round := rounds.takeWhile fun r => !r.Stops

-- the packet of a round whose read brought in all of it
def Round.complete? (r : Round) : Option SimicsTransaction :=
  if r.read.IsFull then some (r.read.store .zero) else none

def completelyDequeued (rounds : List Round) : List SimicsTransaction :=
  (live rounds).filterMap Round.complete?

section Loop

variable {round : RelayThread → Round → RelayThread × List RelayEvent}
  (hround : ForwardsStatic round) (onStop : List RelayEvent) (hstop : forwarded onStop = [])

include hround hstop

-- one packet a round, whatever was read
theorem relayLoop_forwarded_length (t : RelayThread) (rounds : List Round) :
    (forwarded (relayLoop round onStop t rounds).2).length = (live rounds).length := by
  induction rounds generalizing t with
  | nil => rfl
  | cons r rounds ih =>
      rw [live, List.takeWhile_cons]
      cases hr : r.Stops with
      | true => simp [relayLoop, hr, hstop]
      | false =>
        have hlater := ih (round t r).1
        rw [relayLoop_cons round onStop t hr, forwarded_skipsPrintf.append, hround.forwarded t r,
          List.singleton_append, List.length_cons, hlater]
        rfl

theorem relayLoop_forwarded_iff (t : RelayThread) (rounds : List Round) :
    forwarded (relayLoop round onStop t rounds).2 = completelyDequeued rounds ↔
      ∀ r ∈ live rounds, r.read.IsFull := by
  induction rounds generalizing t with
  | nil => exact iff_of_true rfl (by simp [live])
  | cons r rounds ih =>
      cases hr : r.Stops with
      | true =>
        have hlive : live (r :: rounds) = [] := by simp [live, hr]
        rw [relayLoop, if_pos hr, completelyDequeued, hlive]
        exact iff_of_true hstop (by simp)
      | false =>
        have hlive : live (r :: rounds) = r :: live rounds := by simp [live, hr]
        rw [relayLoop_cons round onStop t hr, completelyDequeued, hlive,
          forwarded_skipsPrintf.append, hround.forwarded t r, List.forall_mem_cons,
          List.singleton_append]
        by_cases hfull : r.read.IsFull
        · have hpacket : r.complete? = some (r.read.store t.simicsData) := by
            rw [Round.complete?, if_pos hfull,
              ReadResult.eq_packet_of_isFull hfull t.simicsData]
            simp only [ReadResult.store_packet]
          rw [List.filterMap_cons_some hpacket, List.cons.injEq, ← completelyDequeued, ih]
          simp only [true_and, hfull]
        · have hnone : r.complete? = none := by
            rw [Round.complete?, if_neg hfull]
          rw [List.filterMap_cons_none hnone]
          -- one packet too many was forwarded
          refine iff_of_false (fun h => ?_) (fun h => hfull h.1)
          have hlen := congrArg List.length h
          have hle := List.length_filterMap_le Round.complete? (live rounds)
          rw [List.length_cons, relayLoop_forwarded_length hround onStop hstop] at hlen
          omega

end Loop

/-- Each loop forwards exactly the packets that it dequeued completely if and only if every dequeue
of the run is complete. -/
theorem relay_loops_forward_iff (verbose : Bool) (t : RelayThread) (rounds : List Round) :
    (forwarded (hostRequestReadThread verbose t rounds).2 = completelyDequeued rounds ∧
      forwarded (cxlServerFifoAccessThread verbose t rounds).2 = completelyDequeued rounds ∧
      ∀ usenetwork : Bool,
        forwarded (cxlRtlToHostReplyThread usenetwork verbose t rounds).2 =
          completelyDequeued rounds) ↔
      ∀ r ∈ live rounds, r.read.IsFull := by
  have hhost := requestRound_forwardsStatic "host_request_read_thread" verbose
    (fun _ => sendPacket) (fun p r => forwarded_sendPacket p r)
  have hfifo := requestRound_forwardsStatic "cxl_server_fifo_access_thread" verbose _
    (fun p r => forwarded_dumpForSystemVerilogFifoInPut verbose p r)
  have h₁ := relayLoop_forwarded_iff hhost _ (forwarded_skipsPrintf.say verbose
    "host_request_read_thread: exit: stop_request_read_thread = %d, cxl_client_stopflag=%d\n")
    t rounds
  have h₂ := relayLoop_forwarded_iff hfifo [.exit] rfl t rounds
  have h₃ : ∀ usenetwork : Bool, _ := fun usenetwork =>
    relayLoop_forwarded_iff (replyRound_forwardsStatic usenetwork verbose) _
      (forwarded_skipsPrintf.say verbose
        "cxl_rtl_to_host_reply_thread: exit: stop_reply_thread = %d, server_stopflag=%d\n") t rounds
  constructor
  · intro h
    exact h₁.mp h.1
  · intro h
    exact ⟨h₁.mpr h, h₂.mpr h, fun usenetwork => (h₃ usenetwork).mpr h⟩

-- one whole packet, then a read that fails
def failedRead : List Round :=
  [{ stopflag := false, stopThread := false, read := .packet .zero, sends := fun _ => .accept 287
     retval := 288 },
   { stopflag := false, stopThread := false, read := .fail, sends := fun _ => .accept 287
     retval := 288 }]

theorem failed_read_forwards_again :
    ¬ ∀ (verbose : Bool) (t : RelayThread) (rounds : List Round),
      forwarded (hostRequestReadThread verbose t rounds).2 = completelyDequeued rounds ∧
        forwarded (cxlServerFifoAccessThread verbose t rounds).2 = completelyDequeued rounds ∧
        ∀ usenetwork : Bool,
          forwarded (cxlRtlToHostReplyThread usenetwork verbose t rounds).2 =
            completelyDequeued rounds := by
  intro h
  have hhost := (h false ⟨.zero, 0, 0⟩ failedRead).1
  have hlen := congrArg List.length hhost
  rw [hostRequestReadThread, relayLoop_forwarded_length
    (requestRound_forwardsStatic _ false _ (fun p r => forwarded_sendPacket p r)) _
    (forwarded_skipsPrintf.say _ _)] at hlen
  have hfail : ¬ ReadResult.fail.IsFull := by decide
  have hdeq : (completelyDequeued failedRead).length = 1 := by
    simp [completelyDequeued, failedRead, live, Round.Stops, Round.complete?,
      ReadResult.packet_isFull, hfail]
  rw [hdeq] at hlen
  exact absurd hlen (by decide)

end SimConnect
