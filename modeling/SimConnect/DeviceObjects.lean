import SimConnect.IssueCalls
import SimConnect.Foundation.Queue

/-!
# Device objects that share the packets of the module

Every access of every object goes through the one `send_pkt`, the one `reply_pkt` and the one pair
of pipes.  Nothing keeps two accesses apart, so each atomic step may find the packets as another
access left them.
-/

open SimConnect.Foundation

namespace SimConnect

/-! ## The steps of an access -/

-- what issue writes into send_pkt, over what is there
def fillPacket (p : SimicsTransaction) (a : DeviceAccess) : SimicsTransaction :=
  let header : SimicsTransaction :=
    { p with
      packetType := if a.dev.memAccessType then 2 else 1
      simType := 1
      physicalAddress := a.addr
      r0w1 := if a.t.isRead then 0 else 1
      dataSize := a.t.size }
  if a.t.isRead then header else { header with data := storeValue header.data a.t.value }

theorem fillPacket_zero (a : DeviceAccess) :
    fillPacket .zero a = requestPacket a.dev a.t a.addr := rfl

-- the `sentPacket` of an access that has got the number `n`
def ownPacket (a : DeviceAccess) (n : UInt32) : SimicsTransaction :=
  { requestPacket a.dev a.t a.addr with packetNumber := n }

-- how far an access has come
inductive Stage
  | start
  | cleared
  | filled
  | numbered
  | enqueued
  | dequeued
  | done
  deriving DecidableEq

-- the value that a read sets, with the packet that it was computed from
structure Returned (ι : Type) where
  access : ι
  reply : SimicsTransaction
  value : UInt64

/-- The state that the accesses `ι` share, with the place of each of them.  `sent` and `returned`
record the packets enqueued and the values set so far. -/
structure ModuleState (ι : Type) where
  sendPkt : SimicsTransaction
  replyPkt : SimicsTransaction
  simicsPacketNo : UInt32
  pipes : QueuePair SimicsTransaction SimicsTransaction
  stage : ι → Stage
  number : ι → UInt32
  sent : List (ι × SimicsTransaction)
  returned : List (Returned ι)

variable {ι : Type} [DecidableEq ι]

namespace ModuleState

def init (m : ForwardReceiver) : ModuleState ι where
  sendPkt := m.sendPkt
  replyPkt := m.replyPkt
  simicsPacketNo := m.lib.simicsPacketNo
  pipes := .empty
  stage := fun _ => .start
  number := fun _ => 0
  sent := []
  returned := []

-- both memsets
def clear (s : ModuleState ι) (i : ι) : ModuleState ι :=
  { s with
    sendPkt := .zero
    replyPkt := .zero
    stage := Function.update s.stage i .cleared }

def fill (s : ModuleState ι) (a : DeviceAccess) (i : ι) : ModuleState ι :=
  { s with
    sendPkt := fillPacket s.sendPkt a
    stage := Function.update s.stage i .filled }

-- spd->packet_number = simics_packet_no++
def assignNumber (s : ModuleState ι) (i : ι) : ModuleState ι :=
  { s with
    sendPkt := { s.sendPkt with packetNumber := s.simicsPacketNo }
    simicsPacketNo := s.simicsPacketNo + 1
    number := Function.update s.number i s.simicsPacketNo
    stage := Function.update s.stage i .numbered }

def enqueue (s : ModuleState ι) (i : ι) : ModuleState ι :=
  { s with
    pipes := { s.pipes with request := s.pipes.request.enqueue s.sendPkt }
    sent := s.sent ++ [(i, s.sendPkt)]
    stage := Function.update s.stage i .enqueued }

def dequeue (s : ModuleState ι) (i : ι) {reply : SimicsTransaction} {rest : List SimicsTransaction}
    (h : s.pipes.reply.contents = reply :: rest) : ModuleState ι :=
  { s with
    pipes := { s.pipes with reply := s.pipes.reply.dequeue h }
    replyPkt := reply
    stage := Function.update s.stage i .dequeued }

-- only a read looks at reply_pkt
def compute (s : ModuleState ι) (a : DeviceAccess) (i : ι) : ModuleState ι :=
  { s with
    returned := if a.t.isRead then
      s.returned ++ [{ access := i, reply := s.replyPkt
                       value := readValue a.t.opsize a.addr (loadValue s.replyPkt.data) }]
      else s.returned
    stage := Function.update s.stage i .done }

-- the cosim takes the oldest request and answers it
def answer (s : ModuleState ι) {p : SimicsTransaction} {rest : List SimicsTransaction}
    (h : s.pipes.request.contents = p :: rest) (reply : SimicsTransaction) : ModuleState ι :=
  { s with
    pipes := { request := s.pipes.request.dequeue h, reply := s.pipes.reply.enqueue reply } }

end ModuleState

inductive ModuleAct (ι : Type)
  | clear (i : ι)
  | fill (i : ι)
  | assignNumber (i : ι)
  | enqueue (i : ι)
  | dequeue (i : ι)
  | compute (i : ι)
  | answer

/-- The accesses `acc` of any number of objects, their steps in any order. -/
inductive ModuleStep (acc : ι → DeviceAccess) (s : ModuleState ι) :
    ModuleAct ι → ModuleState ι → Prop
  | clear {i : ι} : s.stage i = .start → ModuleStep acc s (.clear i) (s.clear i)
  | fill {i : ι} : s.stage i = .cleared → ModuleStep acc s (.fill i) (s.fill (acc i) i)
  | assignNumber {i : ι} : s.stage i = .filled →
      ModuleStep acc s (.assignNumber i) (s.assignNumber i)
  | enqueue {i : ι} : s.stage i = .numbered → ModuleStep acc s (.enqueue i) (s.enqueue i)
  | dequeue {i : ι} {reply : SimicsTransaction} {rest : List SimicsTransaction}
      (h : s.pipes.reply.contents = reply :: rest) : s.stage i = .enqueued →
      ModuleStep acc s (.dequeue i) (s.dequeue i h)
  | compute {i : ι} : s.stage i = .dequeued → ModuleStep acc s (.compute i) (s.compute (acc i) i)
  | answer {p reply : SimicsTransaction} {rest : List SimicsTransaction}
      (h : s.pipes.request.contents = p :: rest) : reply.packetNumber = p.packetNumber →
      ModuleStep acc s .answer (s.answer h reply)

namespace ModuleState

-- the steps of one access up to its enqueue, in a row
def send (s : ModuleState ι) (a : DeviceAccess) (i : ι) : ModuleState ι :=
  (((s.clear i).fill a i).assignNumber i).enqueue i

end ModuleState

/-- In a row they send what `issue` sends. -/
theorem send_sent (s : ModuleState ι) (a : DeviceAccess) (i : ι) {m : ForwardReceiver}
    (hm : m.lib.simicsPacketNo = s.simicsPacketNo) :
    (s.send a i).sent = s.sent ++ [(i, sentPacket a.dev a.t a.addr m)] := by
  rw [sentPacket, hm, ← fillPacket_zero]
  rfl

-- and the value is the one that the device takes from the reply
theorem compute_returned (s : ModuleState ι) (a : DeviceAccess) (i : ι)
    (hread : a.t.isRead = true) :
    (s.compute a i).returned = s.returned ++
      [⟨i, s.replyPkt, (finishTransaction a.t a.addr s.replyPkt).value⟩] := by
  rw [finishTransaction, if_pos hread]
  exact if_pos hread

/-! ## What must not mix -/

/-- Every packet enqueued is the access's own as a whole, and every value that a read has set comes
from a reply of the cosim with the number of the access. -/
structure Unmixed (acc : ι → DeviceAccess) (s : ModuleState ι) : Prop where
  sent : ∀ x ∈ s.sent, x.2 = ownPacket (acc x.1) (s.number x.1)
  returned : ∀ x ∈ s.returned, x.reply ∈ s.pipes.reply.put ∧
    x.reply.packetNumber = s.number x.access ∧
    x.value = readValue (acc x.access).t.opsize (acc x.access).addr (loadValue x.reply.data)

-- from the clear to the enqueue
def Stage.composing : Stage → Bool
  | cleared | filled | numbered => true
  | _ => false

-- the access is at work on send_pkt
def ModuleState.Composing (s : ModuleState ι) (i : ι) : Prop := (s.stage i).composing = true

-- reply_pkt holds the reply that the access is going to look at
def ModuleState.Reading (acc : ι → DeviceAccess) (s : ModuleState ι) (i : ι) : Prop :=
  (acc i).t.isRead = true ∧ s.stage i = .dequeued

-- the reply that is dequeued next answers the request of the access
def ModuleState.Next (s : ModuleState ι) (i : ι) : Prop :=
  ∃ p, s.sent[s.pipes.reply.got.length]? = some (i, p)

/-- The condition on a step: an access begins when no other one stands between its clear and its
enqueue, none has its reply in `reply_pkt` when that is cleared or written, and a read dequeues its
own reply. -/
def Undisturbed (acc : ι → DeviceAccess) (s : ModuleState ι) : ModuleAct ι → Prop
  | .clear _ => (∀ j, ¬ s.Composing j) ∧ ∀ j, ¬ s.Reading acc j
  | .dequeue i => (∀ j, ¬ s.Reading acc j) ∧ ((acc i).t.isRead = true → s.Next i)
  | _ => True

/-! ## The invariants -/

section Invariants

variable {acc : ι → DeviceAccess} {s s' : ModuleState ι} {a : ModuleAct ι}

theorem stage_update {stage : ι → Stage} {i j : ι} {st st' : Stage}
    (h : Function.update stage i st j = st') : j = i ∧ st = st' ∨ j ≠ i ∧ stage j = st' := by
  by_cases hji : j = i
  · rw [hji, Function.update_self] at h
    exact Or.inl ⟨hji, h⟩
  · rw [Function.update_of_ne hji] at h
    exact Or.inr ⟨hji, h⟩

-- what an access has made of send_pkt
def composed (a : DeviceAccess) (n : UInt32) : Stage → SimicsTransaction
  | .cleared => .zero
  | .filled => requestPacket a.dev a.t a.addr
  | _ => ownPacket a n

-- `send_pkt` belongs to one access at a time
structure SendInv (acc : ι → DeviceAccess) (s : ModuleState ι) : Prop where
  holds : ∀ i, s.Composing i → s.sendPkt = composed (acc i) (s.number i) (s.stage i)
  alone : ∀ i j, s.Composing i → s.Composing j → i = j

-- a step of one access leaves the place of the others
theorem composing_of_ne {i j : ι} {st : Stage} (hstage : s'.stage = Function.update s.stage i st)
    (hne : j ≠ i) (h : s'.Composing j) : s.Composing j := by
  unfold ModuleState.Composing at h
  rwa [hstage, Function.update_of_ne hne] at h

-- what one access has made of `send_pkt`, and no other is at work on it
theorem SendInv.of_one {i : ι} {st : Stage} (hstage : s'.stage = Function.update s.stage i st)
    (hothers : ∀ j, s.Composing j → j = i)
    (hsend : s'.sendPkt = composed (acc i) (s'.number i) st) : SendInv acc s' := by
  have hself : ∀ j, s'.Composing j → j = i := by
    intro j hj
    by_contra hne
    exact hne (hothers j (composing_of_ne hstage hne hj))
  refine ⟨fun j hj => ?_, fun j k hj hk => (hself j hj).trans (hself k hk).symm⟩
  rw [hself j hj, hsend, hstage, Function.update_self]

-- a step that leaves `send_pkt` and the numbers alone
theorem SendInv.leave (h : SendInv acc s) {i : ι} {st : Stage} (hst : st.composing = false)
    (hsend : s'.sendPkt = s.sendPkt) (hnumber : s'.number = s.number)
    (hstage : s'.stage = Function.update s.stage i st) : SendInv acc s' := by
  have hne : ∀ j, s'.Composing j → j ≠ i := by
    rintro j hj rfl
    rw [ModuleState.Composing, hstage, Function.update_self, hst] at hj
    cases hj
  have hold : ∀ j, s'.Composing j → s.Composing j :=
    fun j hj => composing_of_ne hstage (hne j hj) hj
  refine ⟨fun j hj => ?_, fun j k hj hk => h.alone j k (hold j hj) (hold k hk)⟩
  rw [hsend, hnumber, hstage, Function.update_of_ne (hne j hj)]
  exact h.holds j (hold j hj)

omit [DecidableEq ι] in
theorem composing_of_stage {i : ι} {st : Stage} (hi : s.stage i = st) (hst : st.composing = true) :
    s.Composing i := by
  rw [ModuleState.Composing, hi, hst]

theorem SendInv.step (h : SendInv acc s) (hok : Undisturbed acc s a)
    (hstep : ModuleStep acc s a s') : SendInv acc s' := by
  cases hstep with
  | @clear i hi => exact .of_one rfl (fun j hj => absurd hj (hok.1 j)) rfl
  | @fill i hi =>
      have hcomposing := composing_of_stage hi rfl
      refine .of_one rfl (fun j hj => h.alone j i hj hcomposing) ?_
      have hzero : s.sendPkt = .zero := by
        rw [h.holds i hcomposing, hi]
        rfl
      change fillPacket s.sendPkt (acc i) = requestPacket (acc i).dev (acc i).t (acc i).addr
      rw [hzero, fillPacket_zero]
  | @assignNumber i hi =>
      have hcomposing := composing_of_stage hi rfl
      refine .of_one rfl (fun j hj => h.alone j i hj hcomposing) ?_
      have hfilled : s.sendPkt = requestPacket (acc i).dev (acc i).t (acc i).addr := by
        rw [h.holds i hcomposing, hi]
        rfl
      change { s.sendPkt with packetNumber := s.simicsPacketNo } =
        ownPacket (acc i) (Function.update s.number i s.simicsPacketNo i)
      rw [hfilled, Function.update_self]
      rfl
  | @enqueue i hi => exact h.leave rfl rfl rfl rfl
  | @dequeue i reply rest hreply hi => exact h.leave rfl rfl rfl rfl
  | @compute i hi => exact h.leave rfl rfl rfl rfl
  | answer hp hreply => exact ⟨h.holds, h.alone⟩

-- the stages after the enqueue
def Stage.past : Stage → Bool
  | enqueued | dequeued | done => true
  | _ => false

/-- The requests in the order of their enqueues, and the answers to them. -/
structure PipeInv (acc : ι → DeviceAccess) (s : ModuleState ι) : Prop where
  put : s.sent.map Prod.snd = s.pipes.request.put
  sent : ∀ x ∈ s.sent, x.2 = ownPacket (acc x.1) (s.number x.1) ∧ (s.stage x.1).past = true
  answers : Answers (fun p reply : SimicsTransaction => reply.packetNumber = p.packetNumber)
    s.pipes.request.got s.pipes.reply.put
  balanced : s.pipes.request.got.length = s.pipes.reply.put.length

-- the stage of an access that has got past its enqueue, and its number, after a step of access `i`
theorem past_of_update {i j : ι} {st : Stage} (hpast : (s.stage j).past = true)
    (hi : st.past = true ∨ (s.stage i).past = false) :
    (Function.update s.stage i st j).past = true := by
  by_cases hji : j = i
  · rcases hi with hst | hnot
    · rw [hji, Function.update_self]
      exact hst
    · rw [hji, hnot] at hpast
      cases hpast
  · rw [Function.update_of_ne hji]
    exact hpast

theorem PipeInv.leave (h : PipeInv acc s) {i : ι} {st : Stage}
    (hi : st.past = true ∨ (s.stage i).past = false) (hsent : s'.sent = s.sent)
    (hrequest : s'.pipes.request = s.pipes.request)
    (hput : s'.pipes.reply.put = s.pipes.reply.put)
    (hstage : s'.stage = Function.update s.stage i st)
    (hnumber : ∀ j, (s.stage j).past = true → s'.number j = s.number j) : PipeInv acc s' where
  put := by rw [hsent, hrequest, h.put]
  sent := by
    intro x hx
    rw [hsent] at hx
    obtain ⟨hown, hpast⟩ := h.sent x hx
    refine ⟨by rw [hnumber x.1 hpast, ← hown], ?_⟩
    rw [hstage]
    exact past_of_update hpast hi
  answers := by
    rw [hrequest, hput]
    exact h.answers
  balanced := by rw [hrequest, hput, h.balanced]

theorem PipeInv.step (h : PipeInv acc s) (hsend : SendInv acc s) (hstep : ModuleStep acc s a s') :
    PipeInv acc s' := by
  cases hstep with
  | @clear i hi => exact h.leave (Or.inr (by rw [hi]; rfl)) rfl rfl rfl rfl fun _ _ => rfl
  | @fill i hi => exact h.leave (Or.inr (by rw [hi]; rfl)) rfl rfl rfl rfl fun _ _ => rfl
  | @assignNumber i hi =>
      refine h.leave (Or.inr (by rw [hi]; rfl)) rfl rfl rfl rfl fun j hpast => ?_
      -- the number of an access that has been enqueued stays
      have hne : j ≠ i := by
        intro heq
        rw [heq, hi] at hpast
        cases hpast
      exact Function.update_of_ne hne _ _
  | @enqueue i hi =>
      refine ⟨?_, fun x hx => ?_, h.answers, h.balanced⟩
      · change (s.sent ++ [(i, s.sendPkt)]).map Prod.snd = s.pipes.request.put ++ [s.sendPkt]
        rw [List.map_append, h.put]
        rfl
      · rcases List.mem_append.mp hx with hold | hnew
        · obtain ⟨hown, hpast⟩ := h.sent x hold
          exact ⟨hown, past_of_update hpast (Or.inl rfl)⟩
        · rw [List.mem_singleton.mp hnew]
          have hown := hsend.holds i (composing_of_stage hi rfl)
          rw [hi] at hown
          refine ⟨hown, ?_⟩
          change (Function.update s.stage i .enqueued i).past = true
          rw [Function.update_self]
          rfl
  | @dequeue i reply rest hreply hi => exact h.leave (Or.inl rfl) rfl rfl rfl rfl fun _ _ => rfl
  | @compute i hi => exact h.leave (Or.inl rfl) rfl rfl rfl rfl fun _ _ => rfl
  | @answer p reply rest hp hreply =>
      refine ⟨h.put, h.sent, ?_, ?_⟩
      · apply (h.answers.request p).reply _ hreply
        rw [← h.balanced, List.getElem?_append_right (Nat.le_refl _), Nat.sub_self]
        rfl
      · change (s.pipes.request.got ++ [p]).length = (s.pipes.reply.put ++ [reply]).length
        rw [List.length_append, List.length_append, h.balanced]
        rfl

omit [DecidableEq ι] in
-- a read that dequeues in its turn gets the reply to its own request
theorem PipeInv.own_reply (h : PipeInv acc s) {i : ι} {reply : SimicsTransaction}
    {rest : List SimicsTransaction} (hreply : s.pipes.reply.contents = reply :: rest)
    (hnext : s.Next i) : reply ∈ s.pipes.reply.put ∧ reply.packetNumber = s.number i := by
  obtain ⟨p, hp⟩ := hnext
  obtain ⟨q, _, hq, hanswers⟩ := QueuePair.next_reply h.answers hreply
  have hpq : p = q := by
    have hput : s.pipes.request.put[s.pipes.reply.got.length]? = some p := by
      rw [← h.put, List.getElem?_map, hp]
      rfl
    exact Option.some.inj (hput.symm.trans hq)
  obtain ⟨hown, _⟩ := h.sent _ (List.mem_of_getElem? hp)
  refine ⟨List.mem_of_getElem? (s.pipes.reply.next hreply), ?_⟩
  rw [hanswers, ← hpq, show p = ownPacket (acc i) (s.number i) from hown]
  rfl

/-- `reply_pkt` holds the reply to a read that is about to look at it. -/
structure ReplyInv (acc : ι → DeviceAccess) (s : ModuleState ι) : Prop where
  reading : ∀ i, s.Reading acc i →
    s.replyPkt ∈ s.pipes.reply.put ∧ s.replyPkt.packetNumber = s.number i
  returned : ∀ x ∈ s.returned, s.stage x.access = .done ∧ x.reply ∈ s.pipes.reply.put ∧
    x.reply.packetNumber = s.number x.access ∧
    x.value = readValue (acc x.access).t.opsize (acc x.access).addr (loadValue x.reply.data)

theorem done_of_update {i j : ι} {st : Stage} (hdone : s.stage j = .done)
    (hi : s.stage i ≠ .done) : Function.update s.stage i st j = .done := by
  have hne : j ≠ i := fun heq => hi (heq ▸ hdone)
  rw [Function.update_of_ne hne, hdone]

-- a step that leaves `reply_pkt` and the replies alone
theorem ReplyInv.leave (h : ReplyInv acc s) {i : ι} {st : Stage} (hi : s.stage i ≠ .done)
    (hst : st ≠ .dequeued) (hreply : s'.replyPkt = s.replyPkt)
    (hput : s'.pipes.reply.put = s.pipes.reply.put) (hreturned : s'.returned = s.returned)
    (hstage : s'.stage = Function.update s.stage i st)
    (hnumber : ∀ j, j ≠ i → s'.number j = s.number j) : ReplyInv acc s' where
  reading := by
    rintro j ⟨hread, hj⟩
    rw [hstage] at hj
    rcases stage_update hj with ⟨_, hst'⟩ | ⟨hne, hold⟩
    · exact absurd hst' hst
    · rw [hreply, hput, hnumber j hne]
      exact h.reading j ⟨hread, hold⟩
  returned := by
    intro x hx
    rw [hreturned] at hx
    obtain ⟨hdone, hmem, hno, hvalue⟩ := h.returned x hx
    have hne : x.access ≠ i := fun heq => hi (heq ▸ hdone)
    rw [hstage, hput, hnumber x.access hne]
    exact ⟨done_of_update hdone hi, hmem, hno, hvalue⟩

-- a step that writes `reply_pkt` while no other read is going to look at it
theorem reading_of_update {i j : ι} {st : Stage} (hnone : ∀ k, ¬ s.Reading acc k)
    (hstage : s'.stage = Function.update s.stage i st) (hj : s'.Reading acc j) : j = i := by
  by_contra hne
  obtain ⟨hread, hj⟩ := hj
  rw [hstage, Function.update_of_ne hne] at hj
  exact hnone j ⟨hread, hj⟩

theorem ReplyInv.step (h : ReplyInv acc s) (hpipe : PipeInv acc s) (hok : Undisturbed acc s a)
    (hstep : ModuleStep acc s a s') : ReplyInv acc s' := by
  cases hstep with
  | @clear i hi =>
      refine ⟨fun j hj => ?_, fun x hx => ?_⟩
      · have hji := reading_of_update hok.2 rfl hj
        have hstage := hj.2
        rw [hji, show (s.clear i).stage i = .cleared from Function.update_self i _ _] at hstage
        cases hstage
      · obtain ⟨hdone, hrest⟩ := h.returned x hx
        exact ⟨done_of_update hdone (by rw [hi]; decide), hrest⟩
  | @fill i hi =>
      exact h.leave (by rw [hi]; decide) (by decide) rfl rfl rfl rfl fun _ _ => rfl
  | @assignNumber i hi =>
      exact h.leave (by rw [hi]; decide) (by decide) rfl rfl rfl rfl
        fun j hne => Function.update_of_ne hne _ _
  | @enqueue i hi =>
      exact h.leave (by rw [hi]; decide) (by decide) rfl rfl rfl rfl fun _ _ => rfl
  | @dequeue i reply rest hreply hi =>
      refine ⟨fun j hj => ?_, fun x hx => ?_⟩
      · have hji := reading_of_update hok.1 rfl hj
        have hread := hj.1
        rw [hji] at hread ⊢
        exact hpipe.own_reply hreply (hok.2 hread)
      · obtain ⟨hdone, hrest⟩ := h.returned x hx
        exact ⟨done_of_update hdone (by rw [hi]; decide), hrest⟩
  | @compute i hi =>
      have hleave : ∀ x ∈ s.returned, Function.update s.stage i .done x.access = .done := by
        intro x hx
        exact done_of_update (h.returned x hx).1 (by rw [hi]; decide)
      refine ⟨fun j hj => ?_, fun x hx => ?_⟩
      · rcases stage_update hj.2 with ⟨_, hst⟩ | ⟨_, hold⟩
        · cases hst
        · exact h.reading j ⟨hj.1, hold⟩
      · change x ∈ (if (acc i).t.isRead = true then _ else _) at hx
        by_cases hread : (acc i).t.isRead = true
        · rw [if_pos hread] at hx
          rcases List.mem_append.mp hx with hold | hnew
          · exact ⟨hleave x hold, (h.returned x hold).2⟩
          · obtain ⟨hmem, hno⟩ := h.reading i ⟨hread, hi⟩
            rw [List.mem_singleton.mp hnew]
            exact ⟨Function.update_self i _ _, hmem, hno, rfl⟩
        · rw [if_neg hread] at hx
          exact ⟨hleave x hx, (h.returned x hx).2⟩
  | @answer p reply rest hp hreply =>
      refine ⟨fun j hj => ?_, fun x hx => ?_⟩
      · obtain ⟨hmem, hno⟩ := h.reading j hj
        exact ⟨List.mem_append_left _ hmem, hno⟩
      · obtain ⟨hdone, hmem, hrest⟩ := h.returned x hx
        exact ⟨hdone, List.mem_append_left _ hmem, hrest⟩

end Invariants

/-! ## Runs -/

/-- In every run in which no step disturbs another access, nothing mixes, whatever the number of
objects and accesses and the order of their steps. -/
theorem accesses_unmixed {acc : ι → DeviceAccess} {m : ForwardReceiver} {s : ModuleState ι}
    (h : RunsTo (ModuleStep acc) (Undisturbed acc) (.init m) s) : Unmixed acc s := by
  have hinv : SendInv acc s ∧ PipeInv acc s ∧ ReplyInv acc s := by
    refine RunsTo.invariant (I := fun s => SendInv acc s ∧ PipeInv acc s ∧ ReplyInv acc s) h ?_ ?_
    · have hnone : ∀ i, ¬ (ModuleState.init m : ModuleState ι).Composing i :=
        fun _ => Bool.false_ne_true
      refine ⟨⟨fun i hi => absurd hi (hnone i), fun i j hi _ => absurd hi (hnone i)⟩,
        ⟨rfl, fun x hx => absurd hx List.not_mem_nil, answers_nil _, rfl⟩,
        ⟨fun i hi => ?_, fun x hx => absurd hx List.not_mem_nil⟩⟩
      cases hi.2
    · rintro s a s' ⟨hsend, hpipe, hreply⟩ hok hstep
      exact ⟨hsend.step hok hstep, hpipe.step hsend hstep, hreply.step hpipe hok hstep⟩
  obtain ⟨_, hpipe, hreply⟩ := hinv
  exact ⟨fun x hx => (hpipe.sent x hx).1, fun x hx => (hreply.returned x hx).2⟩

section Rounds

variable {acc : ι → DeviceAccess} {s₀ s : ModuleState ι} {i : ι}

abbrev UndisturbedRun (acc : ι → DeviceAccess) : ModuleState ι → ModuleState ι → Prop :=
  RunsTo (ModuleStep acc) (Undisturbed acc)

-- an access that finds the two packets free sends undisturbed
theorem UndisturbedRun.send (h : UndisturbedRun acc s₀ s) (hi : s.stage i = .start)
    (hcomposing : ∀ j, ¬ s.Composing j) (hreading : ∀ j, ¬ s.Reading acc j) :
    UndisturbedRun acc s₀ (s.send (acc i) i) := by
  have hclear : UndisturbedRun acc s₀ (s.clear i) :=
    .next (a := .clear i) h ⟨hcomposing, hreading⟩ (.clear hi)
  have hfill : UndisturbedRun acc s₀ ((s.clear i).fill (acc i) i) :=
    .next (a := .fill i) hclear trivial (.fill (Function.update_self _ _ _))
  have hnumber : UndisturbedRun acc s₀ (((s.clear i).fill (acc i) i).assignNumber i) :=
    .next (a := .assignNumber i) hfill trivial (.assignNumber (Function.update_self _ _ _))
  exact .next (a := .enqueue i) hnumber trivial (.enqueue (Function.update_self _ _ _))

-- and takes its value from its own reply
theorem UndisturbedRun.receive (h : UndisturbedRun acc s₀ s) (hi : s.stage i = .enqueued)
    {reply : SimicsTransaction} {rest : List SimicsTransaction}
    (hreply : s.pipes.reply.contents = reply :: rest) (hreading : ∀ j, ¬ s.Reading acc j)
    (hnext : s.Next i) : UndisturbedRun acc s₀ ((s.dequeue i hreply).compute (acc i) i) := by
  have hdequeue : UndisturbedRun acc s₀ (s.dequeue i hreply) :=
    .next (a := .dequeue i) h ⟨hreading, fun _ => hnext⟩ (.dequeue hreply hi)
  exact .next (a := .compute i) hdequeue trivial (.compute (Function.update_self _ _ _))

end Rounds

instance (s : ModuleState ι) (i : ι) : Decidable (s.Composing i) :=
  inferInstanceAs (Decidable ((s.stage i).composing = true))

instance (acc : ι → DeviceAccess) (s : ModuleState ι) (i : ι) : Decidable (s.Reading acc i) :=
  inferInstanceAs (Decidable ((acc i).t.isRead = true ∧ s.stage i = .dequeued))

-- a read of 4 bytes at 8 and one of 2 bytes at 16, by two objects
def twoReads (i : Bool) : DeviceAccess where
  dev := rtlDevice
  t := { isRead := true, size := if i then 2 else 4, value := 0 }
  addr := if i then 16 else 8

def twoStart : ModuleState Bool := .init .init

-- the replies that the cosim gives to the two
def replyPacket (i : Bool) : SimicsTransaction :=
  let p := ownPacket (twoReads i) (if i then 2 else 1)
  { p with data := storeValue p.data (if i then 0x5566 else 0x11223344) }

-- both requests are in the pipe before the first reply
def bothSent : ModuleState Bool := (twoStart.send (twoReads false) false).send (twoReads true) true

def firstAnswered : ModuleState Bool := bothSent.answer rfl (replyPacket false)

def bothAnswered : ModuleState Bool := firstAnswered.answer rfl (replyPacket true)

theorem bothAnswered_replies :
    bothAnswered.pipes.reply.contents = [replyPacket false, replyPacket true] := rfl

def firstDone : ModuleState Bool :=
  (bothAnswered.dequeue false bothAnswered_replies).compute (twoReads false) false

def bothDone : ModuleState Bool :=
  (firstDone.dequeue true
    (show firstDone.pipes.reply.contents = [replyPacket true] from rfl)).compute (twoReads true)
      true

theorem bothDone_run : UndisturbedRun twoReads twoStart bothDone := by
  have hfirst : UndisturbedRun twoReads twoStart (twoStart.send (twoReads false) false) :=
    UndisturbedRun.send .start rfl (by decide) (by decide)
  have hboth : UndisturbedRun twoReads twoStart bothSent :=
    hfirst.send rfl (by decide) (by decide)
  have hanswer : UndisturbedRun twoReads twoStart firstAnswered :=
    .next (a := .answer) hboth trivial (.answer rfl rfl)
  have hanswers : UndisturbedRun twoReads twoStart bothAnswered :=
    .next (a := .answer) hanswer trivial (.answer rfl rfl)
  have hdone : UndisturbedRun twoReads twoStart firstDone :=
    hanswers.receive rfl rfl (by decide) ⟨_, rfl⟩
  exact hdone.receive rfl rfl (by decide) ⟨_, rfl⟩

/-- Both reads return, each the value of its own reply. -/
theorem overlapping_reads_unmixed : ∃ s : ModuleState Bool,
    RunsTo (ModuleStep twoReads) (Undisturbed twoReads) twoStart s ∧
      s.returned.map (fun x => (x.access, x.value)) = [(false, 0x11223344), (true, 0x5566)] ∧
      Unmixed twoReads s :=
  ⟨bothDone, bothDone_run, by decide +kernel, accesses_unmixed bothDone_run⟩

-- the second read clears the packets between the fill and the number of the first
def firstCleared : ModuleState Bool :=
  ((((twoStart.clear false).fill (twoReads false) false).clear true).assignNumber false).enqueue
    false

theorem firstCleared_reached : Reaches (ModuleStep twoReads) twoStart firstCleared := by
  have hclear : Reaches (ModuleStep twoReads) twoStart (twoStart.clear false) :=
    .next .start trivial (.clear rfl)
  have hfill : Reaches (ModuleStep twoReads) twoStart
      ((twoStart.clear false).fill (twoReads false) false) :=
    .next hclear trivial (.fill rfl)
  have hother : Reaches (ModuleStep twoReads) twoStart
      (((twoStart.clear false).fill (twoReads false) false).clear true) :=
    .next hfill trivial (.clear rfl)
  have hnumber : Reaches (ModuleStep twoReads) twoStart
      ((((twoStart.clear false).fill (twoReads false) false).clear true).assignNumber false) :=
    .next hother trivial (.assignNumber rfl)
  exact .next hnumber trivial (.enqueue rfl)

/-- The read at 8 goes out as a request for address 0. -/
theorem interleaved_reads_mix :
    ¬ ∀ (κ : Type) [DecidableEq κ] (acc : κ → DeviceAccess) (m : ForwardReceiver)
      (s : ModuleState κ), Reaches (ModuleStep acc) (.init m) s →
        ∀ x ∈ s.sent, x.2.physicalAddress = (acc x.1).addr := by
  intro h
  have hmem : (false, firstCleared.sendPkt) ∈ firstCleared.sent := List.mem_singleton.mpr rfl
  have haddress : firstCleared.sendPkt.physicalAddress = 8 :=
    h Bool twoReads .init firstCleared firstCleared_reached _ hmem
  exact absurd haddress (by decide)

end SimConnect
