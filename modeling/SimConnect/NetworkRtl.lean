import SimConnect.NetworkMode
import SimConnect.RtlSystem

/-!
# Network mode from the device to the RTL side

The relay client and the relay server are one link: requests go one way over the connection and
replies the other.  The device gets its replies whatever pieces the network cuts the packets into
on the way out, and as long as the connection stands it does not wait for long.
-/

open SimConnect.Foundation Relation

namespace SimConnect

/-! ## The two ways as a link -/

-- `hostEnqueued` is what the device has written to request_client
structure NetState where
  request : OneWay
  reply : OneWay
  hostEnqueued : List SimicsTransaction

namespace NetState

def init : NetState := ⟨.init, .init, []⟩

def Ended (s : NetState) : Prop := s.request.Ended ∨ s.reply.Ended

/-- One step of a thread.  Without `lossy` the connection stands. -/
inductive Internal (lossy : Prop) : NetState → NetState → Prop
  | request {s : NetState} {l : WayLabel} {w : OneWay} : lossy ∨ s.request.Stands l →
      wayStep s.request l = some w → Internal lossy s { s with request := w }
  | reply {s : NetState} {l : WayLabel} {w : OneWay} : lossy ∨ s.reply.Stands l →
      wayStep s.reply l = some w → Internal lossy s { s with reply := w }

structure Refines (lossy : Prop) (s : NetState)
    (q : QueuePair SimicsTransaction SimicsTransaction) : Prop where
  request : s.request.Carries q.request.contents
  reply : s.reply.Carries q.reply.contents
  hostEnqueued : s.hostEnqueued = q.request.put
  stands : lossy ∨ ¬ s.Ended

-- the one way that moves, beside the other
theorem stands_step {lossy other : Prop} {w w' : OneWay} {l : WayLabel}
    (hgood : lossy ∨ ¬ (w.Ended ∨ other)) (hl : lossy ∨ w.Stands l)
    (hstep : wayStep w l = some w') : lossy ∨ ¬ (w'.Ended ∨ other) := by
  rcases hgood with hlossy | hgood
  · exact Or.inl hlossy
  · rcases hl with hlossy | hstands
    · exact Or.inl hlossy
    · have hw' := OneWay.Stands.step (fun h => hgood (Or.inl h)) hstands hstep
      exact Or.inr (not_or.mpr ⟨hw', fun h => hgood (Or.inr h)⟩)

theorem Refines.internal {lossy : Prop} {s s' : NetState}
    {q : QueuePair SimicsTransaction SimicsTransaction} (h : s.Refines lossy q)
    (hstep : Internal lossy s s') : s'.Refines lossy q := by
  cases hstep with
  | request hl hstep =>
      exact ⟨h.request.step hstep, h.reply, h.hostEnqueued, stands_step h.stands hl hstep⟩
  | reply hl hstep =>
      refine ⟨h.request, h.reply.step hstep, h.hostEnqueued, ?_⟩
      have hstands : lossy ∨ ¬ (s.reply.Ended ∨ s.request.Ended) :=
        h.stands.imp_right fun hgood hended => hgood hended.symm
      exact (stands_step hstands hl hstep).imp_right fun hgood hended => hgood hended.symm

end NetState

def netLink (lossy : Prop) : RelayLink NetState where
  clientPut := fun s p s' => s' = { s with
    request := { s.request with source := s.request.source ++ [p] }
    hostEnqueued := s.hostEnqueued ++ [p] }
  clientGet := fun s p s' => ∃ rest, s.reply.sink = p :: rest ∧
    s' = { s with reply := { s.reply with sink := rest } }
  serverGet := fun s p s' => ∃ rest, s.request.sink = p :: rest ∧
    s' = { s with request := { s.request with sink := rest } }
  serverPut := fun s p s' => s' = { s with
    reply := { s.reply with source := s.reply.source ++ [p] } }
  internal := NetState.Internal lossy
  Refines := NetState.Refines lossy
  clientPut_refines := by
    rintro s q p s' href rfl
    exact ⟨href.request.put p, href.reply, by rw [href.hostEnqueued]; rfl, href.stands⟩
  serverPut_refines := by
    rintro s q p s' href rfl
    exact ⟨href.request, href.reply.put p, href.hostEnqueued, href.stands⟩
  clientGet_refines := by
    rintro s q p s' href ⟨rest, hsink, rfl⟩
    obtain ⟨later, hcontents, hcarries⟩ := href.reply.get hsink
    exact ⟨later, hcontents, href.request, hcarries, href.hostEnqueued, href.stands⟩
  serverGet_refines := by
    rintro s q p s' href ⟨rest, hsink, rfl⟩
    obtain ⟨later, hcontents, hcarries⟩ := href.request.get hsink
    exact ⟨later, hcontents, hcarries, href.reply, href.hostEnqueued, href.stands⟩
  internal_refines := fun _ _ _ href hstep => href.internal hstep

namespace NetState

-- a reply costs its way back, a request both ways and the round between them
def work (s : NetState) : ℕ := s.request.work (simicsPktSize + 6) + s.reply.work 0

theorem Internal.work {lossy : Prop} {s s' : NetState} (hstep : Internal lossy s s') :
    s'.work < s.work := by
  cases hstep with
  | request _ hstep => exact Nat.add_lt_add_right (OneWay.work_step _ hstep) _
  | reply _ hstep => exact Nat.add_lt_add_left (OneWay.work_step _ hstep) _

theorem Refines.enabled {lossy : Prop} {s : NetState}
    {q : QueuePair SimicsTransaction SimicsTransaction} (h : s.Refines lossy q) :
    s.Ended ∨ (∃ p s', (netLink lossy).clientGet s p s') ∨ (∃ s', (netLink lossy).internal s s') ∨
      (∃ p s', (netLink lossy).serverGet s p s') ∨
      (q.request.contents = [] ∧ q.reply.contents = []) := by
  rcases h.request.stuck with hended | ⟨l, w, hl, hstep⟩ | hrequest
  · exact Or.inl (Or.inl hended)
  · exact Or.inr (Or.inr (Or.inl ⟨_, .request (Or.inr hl) hstep⟩))
  · rcases h.reply.stuck with hended | ⟨l, w, hl, hstep⟩ | hreply
    · exact Or.inl (Or.inr hended)
    · exact Or.inr (Or.inr (Or.inl ⟨_, .reply (Or.inr hl) hstep⟩))
    · cases hback : s.reply.sink with
      | cons p rest => exact Or.inr (Or.inl ⟨p, _, rest, hback, rfl⟩)
      | nil =>
          cases hgo : s.request.sink with
          | cons p rest => exact Or.inr (Or.inr (Or.inr (Or.inl ⟨p, _, rest, hgo, rfl⟩)))
          | nil =>
              rw [hgo] at hrequest
              rw [hback] at hreply
              exact Or.inr (Or.inr (Or.inr (Or.inr ⟨hrequest, hreply⟩)))

end NetState

def netRanked (lossy : Prop) : (netLink lossy).Ranked where
  rank := NetState.work
  cost := simicsPktSize + 4
  down := NetState.Ended
  internal_rank := fun _ _ hstep => hstep.work
  serverGet_rank := by
    rintro s p s' ⟨rest, hsink, rfl⟩
    simp only [NetState.work, OneWay.work, hsink, List.length_cons, Nat.mul_succ]
    omega
  serverPut_rank := by
    rintro s p s' rfl
    simp only [NetState.work, OneWay.work, List.length_append, List.length_singleton, Nat.mul_succ]
    omega
  serverPut_enabled := fun _ _ => ⟨_, rfl⟩
  enabled := fun _ _ href => href.enabled

/-! ## The device in network mode -/

-- the connection is there, its threads are at the top of their loops and nothing is on the way
def netRtlInit (rtl : RtlSide) : LinkedRtl NetState := ⟨.init, .ready rtl⟩

theorem OneWay.init_carries : OneWay.init.Carries [] := ⟨[], rfl, rfl⟩

theorem OneWay.init_not_ended : ¬ OneWay.init.Ended := by
  rintro (⟨rest, hsender⟩ | hclosed)
  · cases hsender
  · cases hclosed

theorem netRtlInit_history (lossy : Prop) (rtl : RtlSide) :
    (netRtlInit rtl).History (netLink lossy) RtlAnswer [] [] :=
  ⟨.empty, ⟨⟨OneWay.init_carries, OneWay.init_carries, rfl,
    Or.inr (not_or.mpr ⟨OneWay.init_not_ended, OneWay.init_not_ended⟩)⟩,
    answers_nil _, fun _ => rfl, nofun⟩, rfl, rfl⟩

theorem netRanked_total_le {lossy : Prop} {p : SimicsTransaction} {s : LinkedRtl NetState}
    (h : s.Waiting (netLink lossy) RtlAnswer p) : (netRanked lossy).total s ≤ 592 := by
  obtain ⟨as, bs, ⟨q, hq, rfl, rfl⟩, hlen, _⟩ := h
  have hrequest := hq.refines.request.work_le (simicsPktSize + 6)
  have hreply := hq.refines.reply.work_le 0
  have hput := q.request.put_length
  have hgot := q.reply.put_length
  have hcount := hq.answers.length_le
  rw [List.length_append] at hcount
  have hsize : simicsPktSize = 288 := rfl
  simp only [Link.Ranked.total, netRanked, NetState.work]
  rw [hsize] at hrequest hreply ⊢
  omega

/-- What ends the wait for the reply to `p`: it lies in `reply_client`, or a failure has ended the
connection, or the device has sent the packet number 0 and the simulation is finished. -/
def NetReplyReadable (lossy : Prop) (p : SimicsTransaction) (s : LinkedRtl NetState) : Prop :=
  (∃ b rest, s.link.reply.sink = b :: rest ∧ RtlAnswer p (some b)) ∨
    (lossy ∧ s.link.Ended) ∨ ∃ p' ∈ s.link.hostEnqueued, p'.packetNumber = 0

theorem netReplyReadable_of_ends {lossy : Prop} {p : SimicsTransaction} {s : LinkedRtl NetState}
    (hwait : s.Waiting (netLink lossy) RtlAnswer p) (hends : (netRanked lossy).Ends s) :
    NetReplyReadable lossy p s := by
  rcases hends with ⟨b, l, hget⟩ | hstopped | hended
  · have hanswer := (hwait.get hget).1
    obtain ⟨rest, hpipe, _⟩ := hget
    exact Or.inl ⟨b, rest, hpipe, hanswer⟩
  · obtain ⟨_, _, ⟨q, hq, _⟩, _⟩ := hwait
    have hsent := hq.stopped_put hstopped
    rw [← hq.refines.hostEnqueued] at hsent
    exact Or.inr (Or.inr hsent)
  · obtain ⟨_, _, ⟨q, hq, _⟩, _⟩ := hwait
    rcases hq.refines.stands with hlossy | hgood
    · exact Or.inr (Or.inl ⟨hlossy, hended⟩)
    · exact absurd hended hgood

/-- Device, the four threads of the relays and RTL side in any order, with packets cut into any
pieces: at most one packet is on the way, every transaction ends as `deviceReturns` says, and a
device that waits for a reply can read it after at most 592 steps of the others, unless a failing
`send` or a short `recv` has ended the connection. -/
theorem network_rtl_device {lossy : Prop} {m : ForwardReceiver} {fds : ℤ → Option PipeName}
    {rtl : RtlSide} {s : DeviceClient NetState}
    (hrun : RunsTo (Client.Step (linkPipes (netLink lossy)).world issueBody) (PayloadFits NetState)
      ⟨m, none, ⟨fds, netRtlInit rtl⟩, []⟩ s) :
    OneOnTheWay (netLink lossy) s.world.pipes ∧ (∀ x ∈ s.log, x.2 = deviceReturns x.1) ∧
      ∀ p, s.world.pipes.Waiting (netLink lossy) RtlAnswer p →
        Within (Served.Env (netLink lossy) rtlServe) (NetReplyReadable lossy p) 592
          s.world.pipes := by
  have hidle : (netRtlInit rtl).Idle (netLink lossy) RtlAnswer :=
    ⟨[], [], netRtlInit_history lossy rtl, rfl⟩
  obtain ⟨hone, hlog⟩ := device_session (netLink lossy) hidle hrun
  refine ⟨hone, hlog, fun p hwait => ?_⟩
  have hwithin := (netRanked lossy).within rtlServe_obeys rtlServe_total hwait
  exact (hwithin.mono (netRanked_total_le hwait)).imp fun s' h =>
    netReplyReadable_of_ends h.1 h.2

/-! ## A run -/

def standingStep (w : OneWay) : WayLabel → Option OneWay
  | .send .fail => none
  | .recv k => if simicsPktSize ≤ min (k + 1) w.wire.length then wayStep w (.recv k) else none
  | .lost => none
  | l => wayStep w l

theorem standingStep_spec {w w' : OneWay} {l : WayLabel} (h : standingStep w l = some w') :
    w.Stands l ∧ wayStep w l = some w' := by
  cases l with
  | dequeue => exact ⟨trivial, h⟩
  | send o =>
      cases o with
      | accept k => exact ⟨nofun, h⟩
      | fail => cases h
  | recv k =>
      by_cases hk : simicsPktSize ≤ min (k + 1) w.wire.length
      · rw [standingStep, if_pos hk] at h
        exact ⟨hk, h⟩
      · rw [standingStep, if_neg hk] at h
        cases h
  | lost => cases h
  | enqueue => exact ⟨trivial, h⟩

-- one packet from the pipe to the pipe, in two pieces
def wholePacket : List WayLabel :=
  [.dequeue, .send (.accept 99), .send (.accept 400), .send (.accept 0), .recv 287, .enqueue]

def carryOne (w : OneWay) : Option (SimicsTransaction × OneWay) := do
  let w ← exec standingStep w wholePacket
  match w.sink with
  | p :: rest => some (p, { w with sink := rest })
  | [] => none

-- `set` puts the way into its place among the two
theorem carryOne_steps {w : OneWay} {x : SimicsTransaction × OneWay} (set : OneWay → NetState)
    (hset : ∀ w w' l, w.Stands l → wayStep w l = some w' →
      (netLink False).internal (set w) (set w'))
    (h : carryOne w = some x) :
    ∃ w₁, ReflTransGen (netLink False).internal (set w) (set w₁) ∧
      ∃ rest, w₁.sink = x.1 :: rest ∧ x.2 = { w₁ with sink := rest } := by
  obtain ⟨w₁, hway, h⟩ := Option.bind_eq_some_iff.mp h
  have hsteps : ReflTransGen (fun w w' => (netLink False).internal (set w) (set w')) w w₁ := by
    refine reflTransGen_of_exec (fun l _ w w' hstep => ?_) hway
    obtain ⟨hl, hway⟩ := standingStep_spec hstep
    exact hset w w' l hl hway
  refine ⟨w₁, hsteps.lift set fun _ _ hstep => hstep, ?_⟩
  cases hsink : w₁.sink with
  | nil =>
      rw [hsink] at h
      cases h
  | cons p rest =>
      rw [hsink] at h
      cases h
      exact ⟨rest, rfl, rfl⟩

def netFetch (s : NetState) : Option (SimicsTransaction × NetState) :=
  (carryOne s.request).map fun x => (x.1, { s with request := x.2 })

theorem netFetch_steps (s : NetState) (x : SimicsTransaction × NetState)
    (h : netFetch s = some x) :
    ∃ s₁, ReflTransGen (netLink False).internal s s₁ ∧ (netLink False).serverGet s₁ x.1 x.2 := by
  obtain ⟨y, hy, rfl⟩ := Option.map_eq_some_iff.mp h
  obtain ⟨w, hsteps, rest, hsink, hw⟩ := carryOne_steps (fun w => { s with request := w })
    (fun _ _ _ hl hstep => .request (Or.inr hl) hstep) hy
  exact ⟨_, hsteps, rest, hsink, by rw [hw]⟩

def netAnswer (s : NetState) (p : SimicsTransaction) : Option (SimicsTransaction × NetState) :=
  (carryOne { s.reply with source := s.reply.source ++ [p] }).map fun x =>
    (x.1, { s with reply := x.2 })

theorem netAnswer_steps (s : NetState) (p : SimicsTransaction)
    (x : SimicsTransaction × NetState) (h : netAnswer s p = some x) :
    ∃ s₁ s₂, (netLink False).serverPut s p s₁ ∧ ReflTransGen (netLink False).internal s₁ s₂ ∧
      (netLink False).clientGet s₂ x.1 x.2 := by
  obtain ⟨y, hy, rfl⟩ := Option.map_eq_some_iff.mp h
  obtain ⟨w, hsteps, rest, hsink, hw⟩ := carryOne_steps (fun w => { s with reply := w })
    (fun _ _ _ hl hstep => .reply (Or.inr hl) hstep) hy
  exact ⟨_, _, rfl, hsteps, rest, hsink, by rw [hw]⟩

def netSend (s : NetState) (p : SimicsTransaction) : Option NetState :=
  some { s with
    request := { s.request with source := s.request.source ++ [p] }
    hostEnqueued := s.hostEnqueued ++ [p] }

def netStart : Host (LinkedRtl NetState) := ⟨fun _ => none, netRtlInit .init⟩

theorem network_rtl_device_read :
    ∃ s : DeviceClient NetState,
      RunsTo (Client.Step (linkPipes (netLink False)).world issueBody) (PayloadFits NetState)
        ⟨.init, none, netStart, []⟩ s ∧
      ∃ x ∈ s.log, x.2 = (.noException, { isRead := true, size := 4, value := 0 }) := by
  have hends : ((issueBody fourBytesRead .init).runWith?
      (promptLink netSend (promptReply netFetch netAnswer)) netStart).isSome = true := by
    decide +kernel
  obtain ⟨⟨⟨a, m⟩, h'⟩, hrun⟩ := Option.isSome_iff_exists.mp hends
  have hfits : (4 : UInt32).toNat ≤ maxPayloadSize := by decide
  have hstep : RunsTo (Client.Step (linkPipes (netLink False)).world issueBody)
      (PayloadFits NetState) ⟨.init, none, netStart, []⟩
      ⟨m, none, h', [] ++ [(fourBytesRead, a)]⟩ :=
    Client.request? _ (promptLink_ok (netLink False) (fun _ _ _ hl => (Option.some.inj hl).symm)
      (promptReply_steps (netLink False) netFetch_steps netAnswer_steps)) .start hfits hrun
  refine ⟨_, hstep, (fourBytesRead, a), List.mem_singleton_self _, ?_⟩
  exact (network_rtl_device hstep).2.1 _ (List.mem_singleton_self _)

end SimConnect
