import SimConnect.Packet

/-!
# named_pipe.c and cxl_tlp_fifo.c: packets on the named pipes

Every pipe access is one `write` or one `read` of `sizeof(simics_transaction_t)` bytes.  The
functions here are the part around that system call: what is returned and what is left in the
caller's packet.
-/

namespace SimConnect

inductive PipeName
  | requestClient
  | replyClient
  | requestServer
  | replyServer
  deriving DecidableEq, Repr

-- the last component of the path
def PipeName.fileName : PipeName → String
  | .requestClient => "request_client_pipe"
  | .replyClient => "reply_client_pipe"
  | .requestServer => "request_server_pipe"
  | .replyServer => "reply_server_pipe"

/-! ## read -/

/-- The result of one `read` of `SIMICS_PKT_SIZE` bytes.  A `got` of no bytes is the result 0, and
`fail` is -1. -/
inductive ReadResult
  | got (bs : List UInt8) (h : bs.length ≤ simicsPktSize)
  | fail

namespace ReadResult

def ret : ReadResult → ℤ
  | got bs _ => bs.length
  | fail => -1

-- the caller's packet after the read
def store (simicsData : SimicsTransaction) : ReadResult → SimicsTransaction
  | got bs _ => simicsData.overlay bs
  | fail => simicsData

-- a read that brings in the whole of `p`
def packet (p : SimicsTransaction) : ReadResult := got p.image p.image_length.le

def IsFull (r : ReadResult) : Prop := r.ret = simicsPktSize

instance (r : ReadResult) : Decidable r.IsFull :=
  inferInstanceAs (Decidable (r.ret = simicsPktSize))

@[simp] theorem packet_ret (p : SimicsTransaction) : (packet p).ret = simicsPktSize := by
  simp only [packet, ret, p.image_length]

theorem packet_isFull (p : SimicsTransaction) : (packet p).IsFull := packet_ret p

@[simp] theorem store_packet (simicsData p : SimicsTransaction) :
    (packet p).store simicsData = p := by
  rw [packet, store, SimicsTransaction.overlay_image]

-- a full read forgets what was in the caller's packet
theorem eq_packet_of_isFull {r : ReadResult} (h : r.IsFull) (simicsData : SimicsTransaction) :
    r = packet (r.store simicsData) := by
  cases r with
  | got bs hbs =>
      have hlen : bs.length = simicsPktSize := Int.ofNat.inj h
      have himage := SimicsTransaction.image_ofImage hlen
      simp only [store, packet, simicsData.overlay_of_length hlen, himage]
  | fail => exact absurd h (by decide)

end ReadResult

/-- `read` on a pipe that holds `pipe`: the oldest bytes, as many as there are up to one packet. -/
def readPipe (pipe : List UInt8) : ReadResult × List UInt8 :=
  (.got (pipe.take simicsPktSize) (by rw [List.length_take]; exact Nat.min_le_left _ _),
    pipe.drop simicsPktSize)

theorem readPipe_packet (p : SimicsTransaction) (pipe : List UInt8) :
    readPipe (p.image ++ pipe) = (.packet p, pipe) := by
  have htake : (p.image ++ pipe).take simicsPktSize = p.image := List.take_left' p.image_length
  have hdrop : (p.image ++ pipe).drop simicsPktSize = pipe := List.drop_left' p.image_length
  simp only [readPipe, htake, hdrop, ReadResult.packet]

/-- The body shared by the four `simics_pipe_receive_*` functions. -/
def pipeReceive (r : ReadResult) (simicsData : SimicsTransaction) : ℤ × SimicsTransaction :=
  (r.ret, r.store simicsData)

def simicsPipeReceiveRequestClientTlp := pipeReceive
def simicsPipeReceiveReplyRequestClientTlp := pipeReceive
def simicsPipeReceiveRequestServerTlp := pipeReceive
def simicsPipeReceiveReplyRequestServerTlp := pipeReceive

/-! ## write -/

/-- The body of the `simics_pipe_send_*` functions that take -1 alone for a failure.  `none` is the
NULL they return. -/
def pipeSend (retval : ℤ) (simicsData : SimicsTransaction) : Option SimicsTransaction :=
  if retval = -1 then none else some simicsData

def simicsPipeSendRequestClientTlp := pipeSend
def simicsPipeSendReplyClientTlp := pipeSend
def simicsPipeSendReplyServerTlp := pipeSend

-- this one takes 0 for a failure too
def simicsPipeSendRequestServerTlp (retval : ℤ) (simicsData : SimicsTransaction) :
    Option SimicsTransaction :=
  if retval ≤ 0 then none else some simicsData

-- the four agree on every result that write can give for a whole packet
theorem simicsPipeSendRequestServerTlp_eq {retval : ℤ} (h : retval = -1 ∨ 0 < retval)
    (simicsData : SimicsTransaction) :
    simicsPipeSendRequestServerTlp retval simicsData = pipeSend retval simicsData := by
  rcases h with rfl | hpos
  · rfl
  · rw [simicsPipeSendRequestServerTlp, pipeSend, if_neg (by omega), if_neg (by omega)]

/-! ## cxl_tlp_fifo.c -/

def useNamedPipe : Bool := true

-- the enqueue functions return NULL and the dequeue functions 0 when no transport is selected
def viaPipeSend (send : ℤ → SimicsTransaction → Option SimicsTransaction) (retval : ℤ)
    (simicsData : SimicsTransaction) : Option SimicsTransaction :=
  if useNamedPipe then send retval simicsData else none

def viaPipeReceive (receive : ReadResult → SimicsTransaction → ℤ × SimicsTransaction)
    (r : ReadResult) (simicsData : SimicsTransaction) : ℤ × SimicsTransaction :=
  if useNamedPipe then receive r simicsData else (0, simicsData)

def simicsEnqueRequestClientTlp := viaPipeSend simicsPipeSendRequestClientTlp
def simicsDequeRequestClientTlp := viaPipeReceive simicsPipeReceiveRequestClientTlp
def simicsEnqueReplyClientTlp := viaPipeSend simicsPipeSendReplyClientTlp
def simicsDequeReplyRequestClientTlp := viaPipeReceive simicsPipeReceiveReplyRequestClientTlp
def simicsEnqueRequestServerTlp := viaPipeSend simicsPipeSendRequestServerTlp
def simicsDequeRequestServerTlp := viaPipeReceive simicsPipeReceiveRequestServerTlp
def simicsEnqueReplyServerTlp := viaPipeSend simicsPipeSendReplyServerTlp
def simicsDequeReplyRequestServerTlp := viaPipeReceive simicsPipeReceiveReplyRequestServerTlp

end SimConnect
