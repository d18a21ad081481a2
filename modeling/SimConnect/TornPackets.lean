import SimConnect.Framing
import SimConnect.RelayLoops
import Mathlib.Algebra.Order.BigOperators.Group.Finset

/-!
# Torn packets

A `CXL_Send` that fails half way leaves a part of a packet on the connection.  The two threads that
call it go on with the next packet, so the stream stays cut at packet boundaries exactly when every
later `CXL_Send` fails before its first byte.
-/

open SimConnect.Foundation

namespace SimConnect

/-! ## What one CXL_Send puts on the connection -/

/-- The results of `send` that tear a buffer of `size` bytes: the first failure comes after some,
and before all, of its bytes. -/
def Torn (size : ℕ) (os : ℕ → SendOutcome) : Prop :=
  ∃ n, 0 < n ∧ os n = .fail ∧ (∀ j < n, os j ≠ .fail) ∧
    ∑ j ∈ Finset.range n, (os j).takes < size

section PacketSend

variable {os : ℕ → SendOutcome} (p : SimicsTransaction)

theorem cxlSend_accepted_of_fail (h : os 0 = .fail) : (cxlSend os p.image).accepted = [] := by
  rw [cxlSend, cxlSendFrom_fail os 0 p.image h]

theorem cxlSend_accepted_of_torn (h : Torn simicsPktSize os) :
    ∃ t, 0 < t ∧ t < simicsPktSize ∧ ∀ p : SimicsTransaction,
      (cxlSend os p.image).accepted = p.image.take t := by
  obtain ⟨n, hn, hfail, hok, hlt⟩ := h
  have hzero : ∀ j, os (0 + j) = os j := fun j => by rw [Nat.zero_add]
  refine ⟨∑ j ∈ Finset.range n, (os j).takes, ?_, hlt, fun p => ?_⟩
  · have hfirst : 0 < (os 0).takes := by
      cases h0 : os 0 with
      | accept k => exact Nat.succ_pos k
      | fail => exact absurd h0 (hok 0 hn)
    exact lt_of_lt_of_le hfirst
      (Finset.single_le_sum (f := fun j => (os j).takes) (fun _ _ => Nat.zero_le _)
        (Finset.mem_range.mpr hn))
  · have htake := cxlSendFrom_accepted_take os 0 n p.image
      (by rw [hzero, hfail]) (fun j hj => by rw [hzero]; exact hok j hj)
      (by rw [p.image_length]; simpa only [hzero] using hlt)
    rw [cxlSend, htake]
    simp only [hzero]

theorem cxlSend_accepted_of_not_torn (h0 : os 0 ≠ .fail) (h : ¬ Torn simicsPktSize os) :
    (cxlSend os p.image).accepted = p.image := by
  have hzero : ∀ j, os (0 + j) = os j := fun j => by rw [Nat.zero_add]
  rcases cxlSendFrom_accepted_or os 0 p.image with hall | ⟨n, hfail, hok, hlt⟩
  · exact hall
  · simp only [hzero] at hfail hok hlt
    rw [p.image_length] at hlt
    have hn : 0 < n := by
      rcases Nat.eq_zero_or_pos n with rfl | hpos
      · exact absurd hfail h0
      · exact hpos
    exact absurd ⟨n, hn, hfail, hok, hlt⟩ h

end PacketSend

/-! ## Several sends on one connection -/

/-- `wire` is a number of whole packets out of `sent`, then at most a proper prefix of one more. -/
def PacketAligned (sent : List SimicsTransaction) (wire : List UInt8) : Prop :=
  ∃ (whole : List SimicsTransaction) (tail : List UInt8),
    wire = packetBytes whole ++ tail ∧ (∀ q ∈ whole, q ∈ sent) ∧ tail.length < simicsPktSize ∧
      (tail = [] ∨ ∃ p ∈ sent, tail <+: p.image)

theorem PacketAligned.mono {sent sent' : List SimicsTransaction} {wire : List UInt8}
    (h : PacketAligned sent wire) (hsub : ∀ p ∈ sent, p ∈ sent') : PacketAligned sent' wire := by
  obtain ⟨whole, tail, hwire, hwhole, hlen, htail⟩ := h
  refine ⟨whole, tail, hwire, fun q hq => hsub q (hwhole q hq), hlen, ?_⟩
  rcases htail with hnil | ⟨p, hp, hpre⟩
  · exact Or.inl hnil
  · exact Or.inr ⟨p, hsub p hp, hpre⟩

/-- After a torn packet no `CXL_Send` gets a byte out. -/
def NothingAfterTorn (os : List (ℕ → SendOutcome)) : Prop :=
  os.Pairwise fun torn later => Torn simicsPktSize torn → later 0 = .fail

theorem wireOf_cons (s : SimicsTransaction × (ℕ → SendOutcome)) (sends : Sends) :
    wireOf (s :: sends) = (cxlSend s.2 s.1.image).accepted ++ wireOf sends := by
  rw [wireOf, List.flatMap_cons, ← wireOf]

theorem wireOf_eq_nil {sends : Sends} (h : ∀ s ∈ sends, s.2 0 = .fail) : wireOf sends = [] := by
  induction sends with
  | nil => rfl
  | cons s sends ih =>
      rw [wireOf_cons, cxlSend_accepted_of_fail s.1 (h s List.mem_cons_self), List.nil_append,
        ih fun t ht => h t (List.mem_cons_of_mem s ht)]

theorem wireOf_aligned {sends : Sends} (h : NothingAfterTorn (sends.map Prod.snd)) :
    PacketAligned (sends.map Prod.fst) (wireOf sends) := by
  induction sends with
  | nil => exact ⟨[], [], rfl, by simp, by decide, Or.inl rfl⟩
  | cons s sends ih =>
      obtain ⟨p, os⟩ := s
      rw [List.map_cons, NothingAfterTorn, List.pairwise_cons] at h
      have hrest := ih h.2
      rw [wireOf_cons, List.map_cons]
      by_cases h0 : os 0 = .fail
      · rw [cxlSend_accepted_of_fail p h0, List.nil_append]
        exact hrest.mono fun q hq => List.mem_cons_of_mem p hq
      · by_cases htorn : Torn simicsPktSize os
        · -- the torn packet is the last thing on the connection
          have hnil : wireOf sends = [] := by
            refine wireOf_eq_nil fun t ht => h.1 t.2 ?_ htorn
            exact List.mem_map_of_mem ht
          obtain ⟨t, _, ht, haccepted⟩ := cxlSend_accepted_of_torn htorn
          rw [hnil, haccepted p, List.append_nil]
          refine ⟨[], p.image.take t, rfl, by simp, ?_, Or.inr ⟨p, List.mem_cons_self, ?_⟩⟩
          · exact lt_of_le_of_lt (List.length_take_le t p.image) ht
          · exact List.take_prefix t p.image
        · rw [cxlSend_accepted_of_not_torn p h0 htorn]
          have hsub : ∀ q ∈ sends.map Prod.fst, q ∈ p :: sends.map Prod.fst :=
            fun q hq => List.mem_cons_of_mem p hq
          obtain ⟨whole, tail, hwire, hwhole, hlen, htail⟩ := hrest.mono hsub
          refine ⟨p :: whole, tail, ?_, ?_, hlen, htail⟩
          · rw [hwire, packetBytes_cons, List.append_assoc]
          · intro q hq
            rcases List.mem_cons.mp hq with rfl | hmem
            · exact List.mem_cons_self
            · exact hwhole q hmem

/-! ## A packet that shows where it starts -/

-- one byte 1, then zeros
def markPacket : SimicsTransaction := { SimicsTransaction.zero with packetNumber := 1 }

theorem markPacket_image : markPacket.image = 1 :: List.replicate 287 0 := rfl

-- a 1 at every multiple of the packet size, and nowhere else
def Marked (wire : List UInt8) : Prop :=
  ∀ j x, wire[j]? = some x → x = if simicsPktSize ∣ j then 1 else 0

theorem Marked.prefix_of {part wire : List UInt8} (h : Marked wire) (hpre : part <+: wire) :
    Marked part := by
  obtain ⟨rest, rfl⟩ := hpre
  intro j x hx
  obtain ⟨hj, _⟩ := List.getElem?_eq_some_iff.mp hx
  exact h j x (by rw [List.getElem?_append_left hj, hx])

theorem markPacket_marked : Marked markPacket.image := by
  intro j x hx
  rw [markPacket_image] at hx
  cases j with
  | zero =>
      rw [if_pos (dvd_zero _)]
      exact (Option.some.inj hx).symm
  | succ j =>
      rw [List.getElem?_cons_succ, List.getElem?_replicate] at hx
      split at hx
      · rename_i hj
        have hnot : ¬ simicsPktSize ∣ j + 1 := fun hdvd => by
          have hle := Nat.le_of_dvd (Nat.succ_pos j) hdvd
          change 288 ≤ j + 1 at hle
          omega
        rw [if_neg hnot]
        exact (Option.some.inj hx).symm
      · exact absurd hx (by simp)

theorem marked_image_append_iff (wire : List UInt8) :
    Marked (markPacket.image ++ wire) ↔ Marked wire := by
  have hdvd : ∀ j, simicsPktSize ∣ simicsPktSize + j ↔ simicsPktSize ∣ j := fun j =>
    Nat.dvd_add_right (dvd_refl simicsPktSize)
  have hright : ∀ j, (markPacket.image ++ wire)[simicsPktSize + j]? = wire[j]? := fun j => by
    rw [List.getElem?_append_right (by rw [markPacket.image_length]; omega),
      markPacket.image_length, Nat.add_sub_cancel_left]
  constructor
  · intro h j x hx
    have hj := h (simicsPktSize + j) x (by rw [hright, hx])
    simpa only [hdvd] using hj
  · intro h j x hx
    by_cases hj : j < simicsPktSize
    · rw [List.getElem?_append_left (by rw [markPacket.image_length]; exact hj)] at hx
      exact markPacket_marked j x hx
    · obtain ⟨k, rfl⟩ := Nat.exists_eq_add_of_le (Nat.not_lt.mp hj)
      rw [hright] at hx
      simpa only [hdvd] using h k x hx

theorem PacketAligned.marked {sent : List SimicsTransaction} {wire : List UInt8}
    (h : PacketAligned sent wire) (hsent : ∀ p ∈ sent, p = markPacket) : Marked wire := by
  obtain ⟨whole, tail, rfl, hwhole, _, htail⟩ := h
  have hmark : Marked tail := by
    rcases htail with rfl | ⟨p, hp, hpre⟩
    · intro j x hx
      exact absurd hx (by simp)
    · rw [hsent p hp] at hpre
      exact markPacket_marked.prefix_of hpre
  clear htail
  induction whole with
  | nil => rwa [packetBytes_nil, List.nil_append]
  | cons q whole ih =>
      have hq : q = markPacket := hsent q (hwhole q List.mem_cons_self)
      rw [packetBytes_cons, hq, List.append_assoc, marked_image_append_iff]
      exact ih fun r hr => hwhole r (List.mem_cons_of_mem q hr)

-- the first byte that a series of sends gets out is a 1
theorem wireOf_markPacket_head {os : List (ℕ → SendOutcome)} (h : ∃ o ∈ os, o 0 ≠ .fail) :
    (wireOf (os.map fun o => (markPacket, o)))[0]? = some 1 := by
  induction os with
  | nil => exact absurd h (by simp)
  | cons o os ih =>
      rw [List.map_cons, wireOf_cons]
      by_cases h0 : o 0 = .fail
      · rw [cxlSend_accepted_of_fail markPacket h0, List.nil_append]
        apply ih
        obtain ⟨o', hmem, hne⟩ := h
        rcases List.mem_cons.mp hmem with rfl | hlater
        · exact absurd h0 hne
        · exact ⟨o', hlater, hne⟩
      · by_cases htorn : Torn simicsPktSize o
        · obtain ⟨t, ht, _, haccepted⟩ := cxlSend_accepted_of_torn htorn
          obtain ⟨t, rfl⟩ := Nat.exists_eq_succ_of_ne_zero ht.ne'
          rw [haccepted, markPacket_image, List.take_succ_cons, List.cons_append]
          rfl
        · rw [cxlSend_accepted_of_not_torn markPacket h0 htorn, markPacket_image, List.cons_append]
          rfl

theorem nothingAfterTorn_of_marked {os : List (ℕ → SendOutcome)}
    (h : Marked (wireOf (os.map fun o => (markPacket, o)))) : NothingAfterTorn os := by
  induction os with
  | nil => exact List.Pairwise.nil
  | cons o os ih =>
      rw [List.map_cons, wireOf_cons] at h
      by_cases h0 : o 0 = .fail
      · rw [cxlSend_accepted_of_fail markPacket h0, List.nil_append] at h
        refine List.pairwise_cons.mpr ⟨fun o' _ htorn => ?_, ih h⟩
        obtain ⟨n, hn, _, hok, _⟩ := htorn
        exact absurd h0 (hok 0 hn)
      · by_cases htorn : Torn simicsPktSize o
        · obtain ⟨t, ht0, ht, haccepted⟩ := cxlSend_accepted_of_torn htorn
          have hlen : (markPacket.image.take t).length = t := by
            rw [List.length_take, markPacket.image_length, Nat.min_eq_left ht.le]
          -- a byte after the torn packet would be a 1 at position t
          have hall : ∀ o' ∈ os, o' 0 = .fail := by
            by_contra hsome
            push Not at hsome
            have hhead := wireOf_markPacket_head hsome
            have hone := h t 1 (by
              rw [haccepted, List.getElem?_append_right hlen.le, hlen, Nat.sub_self, hhead])
            have hnot : ¬ simicsPktSize ∣ t := fun hdvd =>
              absurd (Nat.le_of_dvd ht0 hdvd) (Nat.not_le.mpr ht)
            rw [if_neg hnot] at hone
            exact absurd hone (by decide)
          refine List.pairwise_cons.mpr ⟨fun o' hmem _ => hall o' hmem, ?_⟩
          exact List.pairwise_of_forall_mem_list fun _ _ o' hmem _ => hall o' hmem
        · rw [cxlSend_accepted_of_not_torn markPacket h0 htorn, marked_image_append_iff] at h
          exact List.pairwise_cons.mpr ⟨fun o' _ hbad => absurd hbad htorn, ih h⟩

/-! ## The two threads -/

def RelayEvent.onWire : RelayEvent → List UInt8
  | .cxlSend _ run => run.accepted
  | _ => []

-- the bytes that a thread has put on its connection
def wire (es : List RelayEvent) : List UInt8 := es.flatMap RelayEvent.onWire

theorem wire_skipsPrintf : SkipsPrintf wire := ⟨fun _ _ => List.flatMap_append, fun _ => rfl⟩

/-- A round that puts its packet on a connection with one `CXL_Send`. -/
structure SendsStatic (round : RelayThread → Round → RelayThread × List RelayEvent) : Prop extends
    ForwardsStatic round where
  wire : ∀ t r, wire (round t r).2 = (cxlSend r.sends (r.read.store t.simicsData).image).accepted

theorem hostRound_sendsStatic (verbose : Bool) :
    SendsStatic (requestRound "host_request_read_thread" (fun _ => sendPacket) verbose) where
  toForwardsStatic := requestRound_forwardsStatic _ verbose _ fun p r => forwarded_sendPacket p r
  wire := by
    intro t r
    rw [← wire_skipsPrintf.effects, requestRound_effects]
    exact List.append_nil _

theorem replyRound_sendsStatic (verbose : Bool) : SendsStatic (replyRound true verbose) where
  toForwardsStatic := replyRound_forwardsStatic true verbose
  wire := by
    intro t r
    rw [← wire_skipsPrintf.effects, replyRound_effects, if_pos rfl, if_pos rfl,
      wire_skipsPrintf.append, apply_ite wire]
    -- the log entry puts nothing on the wire
    rw [show wire [.logged (r.read.store t.simicsData) 2] = wire [] from rfl, ite_self]
    simp only [wire, sendPacket, List.flatMap_cons, List.flatMap_nil, RelayEvent.onWire,
      List.nil_append, List.append_nil]

-- the rounds of a thread that is not stopped are a series of sends
theorem relayLoop_sends {round : RelayThread → Round → RelayThread × List RelayEvent}
    (hround : SendsStatic round) (onStop : List RelayEvent) (t : RelayThread) {rounds : List Round}
    (hlive : ∀ r ∈ rounds, r.Stops = false) :
    ∃ sends : Sends, sends.map Prod.fst = forwarded (relayLoop round onStop t rounds).2 ∧
      sends.map Prod.snd = rounds.map Round.sends ∧
      wireOf sends = wire (relayLoop round onStop t rounds).2 := by
  induction rounds generalizing t with
  | nil => exact ⟨[], rfl, rfl, rfl⟩
  | cons r rounds ih =>
      have hr := hlive r List.mem_cons_self
      obtain ⟨sends, hfst, hsnd, hwire⟩ :=
        ih (round t r).1 fun r' hmem => hlive r' (List.mem_cons_of_mem r hmem)
      have hstep := relayLoop_cons round onStop t hr rounds
      refine ⟨(r.read.store t.simicsData, r.sends) :: sends, ?_, ?_, ?_⟩
      · rw [List.map_cons, hfst, hstep, forwarded_skipsPrintf.append, hround.forwarded,
          List.singleton_append]
      · rw [List.map_cons, hsnd, List.map_cons]
      · rw [wireOf_cons, hwire, hstep, wire_skipsPrintf.append, hround.wire]

theorem relayLoop_aligned {round : RelayThread → Round → RelayThread × List RelayEvent}
    (hround : SendsStatic round) (onStop : List RelayEvent) (t : RelayThread) {rounds : List Round}
    (hlive : ∀ r ∈ rounds, r.Stops = false) (h : NothingAfterTorn (rounds.map Round.sends)) :
    PacketAligned (forwarded (relayLoop round onStop t rounds).2)
      (wire (relayLoop round onStop t rounds).2) := by
  obtain ⟨sends, hfst, hsnd, hwire⟩ := relayLoop_sends hround onStop t hlive
  rw [← hfst, ← hwire]
  exact wireOf_aligned (by rwa [hsnd])

-- rounds that dequeue the mark packet again and again
def markRounds (os : List (ℕ → SendOutcome)) : List Round :=
  os.map fun sends =>
    { stopflag := false, stopThread := false, read := .packet markPacket, sends, retval := 0 }

theorem relayLoop_markRounds {round : RelayThread → Round → RelayThread × List RelayEvent}
    (hround : SendsStatic round) (onStop : List RelayEvent) (t : RelayThread)
    (os : List (ℕ → SendOutcome)) :
    (∀ p ∈ forwarded (relayLoop round onStop t (markRounds os)).2, p = markPacket) ∧
      wire (relayLoop round onStop t (markRounds os)).2 =
        wireOf (os.map fun o => (markPacket, o)) := by
  induction os generalizing t with
  | nil => exact ⟨fun p hp => absurd hp List.not_mem_nil, rfl⟩
  | cons o os ih =>
      rw [markRounds, List.map_cons, relayLoop_cons round onStop t rfl]
      obtain ⟨hforwarded, hwire⟩ := ih (round t _).1
      rw [forwarded_skipsPrintf.append, hround.forwarded, wire_skipsPrintf.append, hround.wire,
        List.map_cons, wireOf_cons]
      simp only [ReadResult.store_packet, List.singleton_append, List.forall_mem_cons]
      exact ⟨⟨trivial, hforwarded⟩, congrArg _ hwire⟩

/-- Whatever the packets are, the bytes on the connection are whole packets with at most one torn
packet at the end if and only if no `CXL_Send` gets a byte out after a torn packet. -/
theorem torn_packets_iff (os : List (ℕ → SendOutcome)) :
    (∀ (verbose : Bool) (t : RelayThread) (rounds : List Round),
      (∀ r ∈ rounds, r.Stops = false) → rounds.map Round.sends = os →
        PacketAligned (forwarded (hostRequestReadThread verbose t rounds).2)
            (wire (hostRequestReadThread verbose t rounds).2) ∧
          PacketAligned (forwarded (cxlRtlToHostReplyThread true verbose t rounds).2)
            (wire (cxlRtlToHostReplyThread true verbose t rounds).2)) ↔
      NothingAfterTorn os := by
  constructor
  · intro h
    have hhost := (h false ⟨.zero, 0, 0⟩ (markRounds os)
      (by
        intro r hr
        obtain ⟨o, _, rfl⟩ := List.mem_map.mp hr
        rfl)
      (by rw [markRounds, List.map_map]; exact List.map_id os)).1
    obtain ⟨hall, hwire⟩ := relayLoop_markRounds (hostRound_sendsStatic false)
      (say false
        "host_request_read_thread: exit: stop_request_read_thread = %d, cxl_client_stopflag=%d\n")
      ⟨.zero, 0, 0⟩ os
    have hmarked := hhost.marked hall
    rw [hostRequestReadThread, hwire] at hmarked
    exact nothingAfterTorn_of_marked hmarked
  · rintro h verbose t rounds hlive rfl
    exact ⟨relayLoop_aligned (hostRound_sendsStatic verbose) _ t hlive h,
      relayLoop_aligned (replyRound_sendsStatic verbose) _ t hlive h⟩

-- the first CXL_Send fails after one byte, the second succeeds
def tornThenWhole : List (ℕ → SendOutcome) :=
  [fun i => if i = 0 then .accept 0 else .fail, fun _ => .accept 287]

theorem torn_then_whole_misaligned :
    ¬ ∀ (os : List (ℕ → SendOutcome)) (verbose : Bool) (t : RelayThread) (rounds : List Round),
      (∀ r ∈ rounds, r.Stops = false) → rounds.map Round.sends = os →
        PacketAligned (forwarded (hostRequestReadThread verbose t rounds).2)
            (wire (hostRequestReadThread verbose t rounds).2) ∧
          PacketAligned (forwarded (cxlRtlToHostReplyThread true verbose t rounds).2)
            (wire (cxlRtlToHostReplyThread true verbose t rounds).2) := by
  intro h
  have hhost := (h tornThenWhole false ⟨.zero, 0, 0⟩ (markRounds tornThenWhole)
    (by
      intro r hr
      obtain ⟨o, _, rfl⟩ := List.mem_map.mp hr
      rfl)
    (by rw [markRounds, List.map_map]; exact List.map_id _)).1
  obtain ⟨hall, hwire⟩ := relayLoop_markRounds (hostRound_sendsStatic false)
    (say false
      "host_request_read_thread: exit: stop_request_read_thread = %d, cxl_client_stopflag=%d\n")
    ⟨.zero, 0, 0⟩ tornThenWhole
  have hmarked := hhost.marked hall
  rw [hostRequestReadThread, hwire] at hmarked
  have hpair := nothingAfterTorn_of_marked hmarked
  have htorn : Torn simicsPktSize fun i => if i = 0 then SendOutcome.accept 0 else .fail :=
    ⟨1, by decide, by decide, by decide, by decide⟩
  have hfail := (List.pairwise_cons.mp hpair).1 _ List.mem_cons_self htorn
  exact absurd hfail (by decide)

end SimConnect
