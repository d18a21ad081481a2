import SimConnect.FifoMode
import SimConnect.RtlSystem

/-!
# FIFO mode from the device to the RTL side

The relay server in FIFO mode is a link, and every step of its two threads brings a packet nearer
to its end.  So the device does not only get the right replies: while a request is on the way, the
others cannot run on for long without making its reply readable.
-/

open SimConnect.Foundation Relation

namespace SimConnect

/-! ## The relay as a link -/

namespace FifoState

-- the reply thread runs once the access thread has opened its pipes
def Spawned (s : FifoState) : Prop :=
  match s.accessAt with
  | .notStarted => s.replyAt = .notStarted
  | .exited => True
  | _ => s.replyAt = .dequeue ∨ s.replyAt = .forward

theorem Spawned.step {s s' : FifoState} {l : FifoLabel} (h : s.Spawned)
    (hstep : fifoStep s l = some s') : s'.Spawned := by
  cases l with
  | hostEnqueue p =>
      cases hstep
      exact h
  | rtlEnqueue p =>
      cases hstep
      exact h
  | openClientPipe ret =>
      simp only [fifoStep] at hstep
      split at hstep
      · by_cases hret : ret < 0
        · rw [if_pos hret] at hstep
          cases hstep
          exact trivial
        · rw [if_neg hret] at hstep
          cases hstep
          exact Or.inl rfl
      · cases hstep
  | accessDequeue =>
      simp only [fifoStep] at hstep
      split at hstep
      · next haccess _ =>
          cases hstep
          rw [Spawned, haccess] at h
          exact h
      · cases hstep
  | accessForward =>
      simp only [fifoStep] at hstep
      split at hstep
      · next haccess =>
          cases hstep
          rw [Spawned, haccess] at h
          exact h
      · cases hstep
  | replyDequeue =>
      simp only [fifoStep] at hstep
      split at hstep
      · next hreply _ =>
          cases hstep
          -- the reply thread is not there before it is spawned
          rw [Spawned] at h ⊢
          dsimp only at h ⊢
          split at h
          · rw [hreply] at h
            cases h
          · trivial
          · exact Or.inr rfl
      · cases hstep
  | replyForward =>
      simp only [fifoStep] at hstep
      split at hstep
      · next hreply =>
          cases hstep
          rw [Spawned] at h ⊢
          dsimp only at h ⊢
          split at h
          · rw [hreply] at h
            cases h
          · trivial
          · exact Or.inl rfl
      · cases hstep
  | _ =>
      simp only [fifoStep] at hstep
      split at hstep
      · cases hstep
        exact h
      · cases hstep

end FifoState

def fifoLink : RelayLink FifoState where
  clientPut := fun s p s' => fifoStep s (.hostEnqueue p) = some s'
  clientGet := fun s p s' => ∃ rest, s.replyClient = p :: rest ∧ fifoStep s .hostDequeue = some s'
  serverGet := fun s p s' => ∃ rest, s.requestServer = p :: rest ∧ fifoStep s .rtlDequeue = some s'
  serverPut := fun s p s' => fifoStep s (.rtlEnqueue p) = some s'
  internal := fun s s' => ∃ l : FifoLabel, l.onQueues = .internal ∧ fifoStep s l = some s'
  Refines := fun s q => s.Refines q ∧ s.Spawned
  clientPut_refines := by
    rintro s q p s' ⟨href, hspawned⟩ hstep
    obtain ⟨q', hq, href'⟩ := refines_step href hstep
    cases hq
    exact ⟨href', hspawned.step hstep⟩
  serverPut_refines := by
    rintro s q p s' ⟨href, hspawned⟩ hstep
    obtain ⟨q', hq, href'⟩ := refines_step href hstep
    cases hq
    exact ⟨href', hspawned.step hstep⟩
  clientGet_refines := by
    rintro s q p s' ⟨href, hspawned⟩ ⟨rest, hpipe, hstep⟩
    obtain ⟨q', hq, href'⟩ := refines_step href hstep
    cases hq with
    | @clientGet b rest' hcontents =>
        have hpath := href.replyPath
        rw [FifoState.replyPath, hpipe, hcontents, List.cons_append, List.cons_append] at hpath
        have hb : b = p := (List.cons.inj hpath).1
        subst hb
        exact ⟨rest', hcontents, href', hspawned.step hstep⟩
  serverGet_refines := by
    rintro s q p s' ⟨href, hspawned⟩ ⟨rest, hpipe, hstep⟩
    obtain ⟨q', hq, href'⟩ := refines_step href hstep
    cases hq with
    | @serverGet a rest' hcontents =>
        have hpath := href.requestPath
        rw [FifoState.requestPath, hpipe, hcontents, List.cons_append, List.cons_append] at hpath
        have ha : a = p := (List.cons.inj hpath).1
        subst ha
        exact ⟨rest', hcontents, href', hspawned.step hstep⟩
  internal_refines := by
    rintro s q s' ⟨href, hspawned⟩ ⟨l, hl, hstep⟩
    obtain ⟨q', hq, href'⟩ := refines_step href hstep
    rw [hl] at hq
    cases hq
    exact ⟨href', hspawned.step hstep⟩

/-! ## The rank of a state -/

namespace FifoState

-- the steps that are left for the packets on the way, and the start of the relay
def work (s : FifoState) : ℕ :=
  (if s.accessAt = .notStarted then 1 else 0) + 6 * s.requestClient.length +
    5 * (s.accessAt.held s.access).length + 4 * s.requestServer.length +
    2 * s.replyServer.length + (s.replyAt.held s.reply).length

theorem internal_work {s s' : FifoState} {l : FifoLabel} (hl : l.onQueues = .internal)
    (hstep : fifoStep s l = some s') : s'.work < s.work := by
  cases l with
  | openClientPipe ret =>
      simp only [fifoStep] at hstep
      split at hstep
      · next haccess hreply =>
          by_cases hret : ret < 0
          · rw [if_pos hret] at hstep
            cases hstep
            simp [work, ThreadAt.held, haccess]
          · rw [if_neg hret] at hstep
            cases hstep
            simp [work, ThreadAt.held, haccess, hreply]
      · cases hstep
  | accessDequeue =>
      simp only [fifoStep] at hstep
      split at hstep
      · next haccess hpipe =>
          cases hstep
          simp [work, ThreadAt.held, haccess, hpipe]
          omega
      · cases hstep
  | accessForward =>
      simp only [fifoStep] at hstep
      split at hstep
      · next haccess =>
          cases hstep
          simp [work, ThreadAt.held, haccess]
          omega
      · cases hstep
  | replyDequeue =>
      simp only [fifoStep] at hstep
      split at hstep
      · next hreply hpipe =>
          cases hstep
          simp [work, ThreadAt.held, hreply, hpipe]
          omega
      · cases hstep
  | replyForward =>
      simp only [fifoStep] at hstep
      split at hstep
      · next hreply =>
          cases hstep
          simp [work, ThreadAt.held, hreply]
      · cases hstep
  | _ => cases hl

theorem exists_step {s : FifoState} {l : FifoLabel} (h : (fifoStep s l).isSome) :
    ∃ s', fifoStep s l = some s' :=
  Option.isSome_iff_exists.mp h

theorem exists_internal {s : FifoState} {l : FifoLabel} (hl : l.onQueues = .internal)
    (h : (fifoStep s l).isSome) : ∃ s', fifoLink.internal s s' := by
  obtain ⟨s', hstep⟩ := exists_step h
  exact ⟨s', l, hl, hstep⟩

-- with nothing to forward and nothing to read, all four pipes are empty
theorem empty_or_enabled {s : FifoState} (hspawned : s.Spawned) :
    s.accessAt = .exited ∨ (∃ p s', fifoLink.clientGet s p s') ∨ (∃ s', fifoLink.internal s s') ∨
      (∃ p s', fifoLink.serverGet s p s') ∨ (s.requestPath = [] ∧ s.replyPath = []) := by
  cases haccess : s.accessAt with
  | exited => exact Or.inl rfl
  | notStarted =>
      rw [Spawned, haccess] at hspawned
      have hint := exists_internal (s := s) (l := .openClientPipe 0) rfl
        (by simp [fifoStep, haccess, hspawned])
      exact Or.inr (Or.inr (Or.inl hint))
  | forward =>
      have hint := exists_internal (s := s) (l := .accessForward) rfl (by simp [fifoStep, haccess])
      exact Or.inr (Or.inr (Or.inl hint))
  | dequeue =>
      rw [Spawned, haccess] at hspawned
      right
      cases hclient : s.replyClient with
      | cons p rest =>
          obtain ⟨s', hstep⟩ := exists_step (s := s) (l := .hostDequeue)
            (by simp [fifoStep, hclient])
          exact Or.inl ⟨p, s', rest, hclient, hstep⟩
      | nil =>
          right
          cases hrequest : s.requestClient with
          | cons p rest =>
              exact Or.inl (exists_internal (l := .accessDequeue) rfl
                (by simp [fifoStep, haccess, hrequest]))
          | nil =>
              cases hserver : s.requestServer with
              | cons p rest =>
                  obtain ⟨s', hstep⟩ := exists_step (s := s) (l := .rtlDequeue)
                    (by simp [fifoStep, hserver])
                  exact Or.inr (Or.inl ⟨p, s', rest, hserver, hstep⟩)
              | nil =>
                  rcases hspawned with hreply | hreply
                  · cases hback : s.replyServer with
                    | cons p rest =>
                        exact Or.inl (exists_internal (l := .replyDequeue) rfl
                          (by simp [fifoStep, hreply, hback]))
                    | nil =>
                        right
                        right
                        simp [requestPath, replyPath, ThreadAt.held, haccess, hreply, hclient,
                          hrequest, hserver, hback]
                  · exact Or.inl (exists_internal (l := .replyForward) rfl
                      (by simp [fifoStep, hreply]))

theorem serverGet_work {s s' : FifoState} {p : SimicsTransaction}
    (h : fifoLink.serverGet s p s') : s'.work + 2 + 1 < s.work := by
  obtain ⟨rest, hpipe, hstep⟩ := h
  simp only [fifoStep, hpipe] at hstep
  cases hstep
  simp only [work, hpipe, List.length_cons]
  omega

theorem serverPut_work {s s' : FifoState} {p : SimicsTransaction}
    (h : fifoLink.serverPut s p s') : s'.work ≤ s.work + 2 := by
  cases (h : fifoStep s (.rtlEnqueue p) = some s')
  simp only [work, List.length_append, List.length_singleton]
  omega

end FifoState

def fifoRanked : fifoLink.Ranked where
  rank := FifoState.work
  cost := 2
  down := fun s => s.accessAt = .exited
  internal_rank := fun _ _ ⟨_, hl, hstep⟩ => FifoState.internal_work hl hstep
  serverGet_rank := fun _ _ _ h => FifoState.serverGet_work h
  serverPut_rank := fun _ _ _ h => FifoState.serverPut_work h
  serverPut_enabled := fun _ _ => ⟨_, rfl⟩
  enabled := by
    rintro s q ⟨href, hspawned⟩
    rw [href.requestPath, href.replyPath]
    exact FifoState.empty_or_enabled hspawned

/-! ## The device in FIFO mode -/

-- all pipes empty, the relay not started and the RTL side at the top of its loop
def fifoRtlInit (rtl : RtlSide) : LinkedRtl FifoState := ⟨.init, .ready rtl⟩

theorem fifoRtlInit_history (rtl : RtlSide) :
    (fifoRtlInit rtl).History fifoLink RtlAnswer [] [] :=
  ⟨.empty, ⟨⟨⟨rfl, rfl, rfl, rfl, rfl, rfl⟩, rfl⟩, answers_nil _, fun _ => rfl, nofun⟩, rfl, rfl⟩

-- one packet is at most seven steps from its end
theorem fifoRanked_total_le {p : SimicsTransaction} {s : LinkedRtl FifoState}
    (h : s.Waiting fifoLink RtlAnswer p) : fifoRanked.total s ≤ 7 := by
  obtain ⟨as, bs, ⟨q, hq, rfl, rfl⟩, hlen, _⟩ := h
  obtain ⟨href, _⟩ := hq.refines
  have hput := q.request.put_length
  have hgot := q.reply.put_length
  have hcount := hq.answers.length_le
  rw [List.length_append] at hcount
  rw [href.requestPath, FifoState.requestPath, List.length_append, List.length_append] at hput
  rw [href.replyPath, FifoState.replyPath, List.length_append, List.length_append] at hgot
  have hstart : (if s.link.accessAt = .notStarted then 1 else 0) ≤ 1 := by
    split <;> omega
  simp only [Link.Ranked.total, fifoRanked, FifoState.work]
  omega

/-- What ends the wait for the reply to `p`: it lies in `reply_client`, or the relay could not open
its pipes, or the device has sent the packet number 0 and the simulation is finished. -/
def ReplyReadable (p : SimicsTransaction) (s : LinkedRtl FifoState) : Prop :=
  (∃ b rest, s.link.replyClient = b :: rest ∧ RtlAnswer p (some b)) ∨
    s.link.accessAt = .exited ∨ ∃ p' ∈ s.link.hostEnqueued, p'.packetNumber = 0

theorem replyReadable_of_ends {p : SimicsTransaction} {s : LinkedRtl FifoState}
    (hwait : s.Waiting fifoLink RtlAnswer p) (hends : fifoRanked.Ends s) : ReplyReadable p s := by
  rcases hends with ⟨b, l, hget⟩ | hstopped | hdown
  · have hanswer := (hwait.get hget).1
    obtain ⟨rest, hpipe, _⟩ := hget
    exact Or.inl ⟨b, rest, hpipe, hanswer⟩
  · obtain ⟨_, _, ⟨q, hq, _⟩, _⟩ := hwait
    have hsent := hq.stopped_put hstopped
    rw [hq.refines.1.hostEnqueued] at hsent
    exact Or.inr (Or.inr hsent)
  · exact Or.inr (Or.inl hdown)

/-- Device, relay threads and RTL side in any order: at most one packet is on the way, every
transaction ends as `deviceReturns` says, and a device that waits for a reply can read it after at
most seven steps of the others, whatever the schedule. -/
theorem fifo_rtl_device {m : ForwardReceiver} {fds : ℤ → Option PipeName} {rtl : RtlSide}
    {s : DeviceClient FifoState}
    (hrun : RunsTo (Client.Step (linkPipes fifoLink).world issueBody) (PayloadFits FifoState)
      ⟨m, none, ⟨fds, fifoRtlInit rtl⟩, []⟩ s) :
    OneOnTheWay fifoLink s.world.pipes ∧ (∀ x ∈ s.log, x.2 = deviceReturns x.1) ∧
      ∀ p, s.world.pipes.Waiting fifoLink RtlAnswer p →
        Within (Served.Env fifoLink rtlServe) (ReplyReadable p) 7 s.world.pipes := by
  obtain ⟨hone, hlog⟩ := device_session fifoLink ⟨[], [], fifoRtlInit_history rtl, rfl⟩ hrun
  refine ⟨hone, hlog, fun p hwait => ?_⟩
  have hwithin := fifoRanked.within rtlServe_obeys rtlServe_total hwait
  exact (hwithin.mono (fifoRanked_total_le hwait)).imp fun s' h => replyReadable_of_ends h.1 h.2

/-! ## A run -/

theorem fifo_internals {s s' : FifoState} {ls : List FifoLabel}
    (hls : ∀ l ∈ ls, l.onQueues = .internal) (h : exec fifoStep s ls = some s') :
    ReflTransGen fifoLink.internal s s' :=
  reflTransGen_of_exec (fun l hl _ _ hstep => ⟨l, hls l hl, hstep⟩) h

-- the relay starts with the first packet
def fifoFetch (s : FifoState) : Option (SimicsTransaction × FifoState) := do
  let started := (fifoStep s (.openClientPipe 0)).getD s
  let s₁ ← exec fifoStep started [.accessDequeue, .accessForward]
  let p ← s₁.requestServer.head?
  let s₂ ← fifoStep s₁ .rtlDequeue
  some (p, s₂)

theorem fifoFetch_steps (s : FifoState) (x : SimicsTransaction × FifoState)
    (h : fifoFetch s = some x) :
    ∃ s₁, ReflTransGen fifoLink.internal s s₁ ∧ fifoLink.serverGet s₁ x.1 x.2 := by
  obtain ⟨s₁, hrequest, h⟩ := Option.bind_eq_some_iff.mp h
  obtain ⟨p, hp, h⟩ := Option.bind_eq_some_iff.mp h
  obtain ⟨s₂, htake, h⟩ := Option.bind_eq_some_iff.mp h
  cases h
  obtain ⟨rest, hpipe⟩ := List.head?_eq_some_iff.mp hp
  have hstart : ReflTransGen fifoLink.internal s ((fifoStep s (.openClientPipe 0)).getD s) := by
    cases hopen : fifoStep s (.openClientPipe 0) with
    | none => exact .refl
    | some s₀ => exact .single ⟨_, rfl, hopen⟩
  exact ⟨s₁, hstart.trans (fifo_internals (by simp [FifoLabel.onQueues]) hrequest), rest, hpipe,
    htake⟩

def fifoAnswer (s : FifoState) (p : SimicsTransaction) :
    Option (SimicsTransaction × FifoState) := do
  let s₁ ← fifoStep s (.rtlEnqueue p)
  let s₂ ← exec fifoStep s₁ [.replyDequeue, .replyForward]
  let b ← s₂.replyClient.head?
  let s₃ ← fifoStep s₂ .hostDequeue
  some (b, s₃)

theorem fifoAnswer_steps (s : FifoState) (p : SimicsTransaction)
    (x : SimicsTransaction × FifoState) (h : fifoAnswer s p = some x) :
    ∃ s₁ s₂, fifoLink.serverPut s p s₁ ∧ ReflTransGen fifoLink.internal s₁ s₂ ∧
      fifoLink.clientGet s₂ x.1 x.2 := by
  -- the write of the RTL side always succeeds
  obtain ⟨s₂, hback, h⟩ := Option.bind_eq_some_iff.mp h
  obtain ⟨b, hb, h⟩ := Option.bind_eq_some_iff.mp h
  obtain ⟨s₃, hget, h⟩ := Option.bind_eq_some_iff.mp h
  cases h
  obtain ⟨rest, hpipe⟩ := List.head?_eq_some_iff.mp hb
  exact ⟨_, s₂, rfl, fifo_internals (by simp [FifoLabel.onQueues]) hback, rest, hpipe, hget⟩

def fifoStart : Host (LinkedRtl FifoState) := ⟨fun _ => none, fifoRtlInit .init⟩

theorem fifo_rtl_device_read :
    ∃ s : DeviceClient FifoState,
      RunsTo (Client.Step (linkPipes fifoLink).world issueBody) (PayloadFits FifoState)
        ⟨.init, none, fifoStart, []⟩ s ∧
      ∃ x ∈ s.log, x.2 = (.noException, { isRead := true, size := 4, value := 0 }) := by
  have hends : ((issueBody fourBytesRead .init).runWith?
      (promptLink (fun l p => fifoStep l (.hostEnqueue p)) (promptReply fifoFetch fifoAnswer))
      fifoStart).isSome = true := by
    decide +kernel
  obtain ⟨⟨⟨a, m⟩, h'⟩, hrun⟩ := Option.isSome_iff_exists.mp hends
  have hfits : (4 : UInt32).toNat ≤ maxPayloadSize := by decide
  have hstep : RunsTo (Client.Step (linkPipes fifoLink).world issueBody) (PayloadFits FifoState)
      ⟨.init, none, fifoStart, []⟩ ⟨m, none, h', [] ++ [(fourBytesRead, a)]⟩ :=
    Client.request? _ (promptLink_ok fifoLink (fun _ _ _ hl => hl)
      (promptReply_steps fifoLink fifoFetch_steps fifoAnswer_steps))
      .start hfits hrun
  refine ⟨_, hstep, (fourBytesRead, a), List.mem_singleton_self _, ?_⟩
  exact (fifo_rtl_device hstep).2.1 _ (List.mem_singleton_self _)

end SimConnect
