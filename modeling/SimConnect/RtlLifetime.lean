import SimConnect.FifoRtl
import SimConnect.PacketNumbers
import SimConnect.Foundation.Machine

/-!
# How long the RTL side serves a device

All device objects of a process number their packets from one counter, and here they run their
transactions one after another.  As long as the pipes open, the packet that is written after
2^32 - 1 replies has the number 0: it is the last one, the RTL side finishes on it and the
transaction that sent it never ends.
-/

open SimConnect.Foundation Relation

namespace SimConnect

section Lifetime

variable {σ : Type} (L : RelayLink σ)

/-- The device has written `i` packets with the numbers from 1 on and read `j` replies. -/
def Numbered (i j : ℕ) (s : LinkedRtl σ) : Prop :=
  ∃ as bs, s.History L RtlAnswer as bs ∧ as.length = i ∧ bs.length = j ∧
    ∀ k p, as[k]? = some p → p.packetNumber = packetNo k

/-- A device that may write its next packet, or waits for a reply that comes, or waits for the one
that does not come. -/
inductive InService (K : L.Ranked) (s : LinkedRtl σ) : Prop
  | idle {n : ℕ} : n < 2 ^ 32 → Numbered L n n s → InService K s
  | waits {n : ℕ} : n + 1 < 2 ^ 32 → Numbered L (n + 1) n s →
      Within (Served.Env L rtlServe) (fun s => (∃ b l, L.clientGet s.link b l) ∨ K.down s.link)
        (K.total s) s → InService K s
  | stops {n : ℕ} : n + 1 = 2 ^ 32 → Numbered L (n + 1) n s →
      (∀ b l, ¬ L.clientGet s.link b l) →
      Within (Served.Env L rtlServe) (fun s => s.server = .stopped ∨ K.down s.link) (K.total s) s →
      InService K s

variable {L}

namespace Numbered

variable {i j n : ℕ} {s s' : LinkedRtl σ}

theorem start (h : s.History L RtlAnswer [] []) : Numbered L 0 0 s :=
  ⟨[], [], h, rfl, rfl, fun k p hp => by cases hp⟩

theorem env (h : Numbered L i j s) (hstep : Served.Env L rtlServe s s') : Numbered L i j s' := by
  obtain ⟨as, bs, hist, hrest⟩ := h
  exact ⟨as, bs, hist.env rtlServe_obeys hstep, hrest⟩

theorem put (h : Numbered L i j s) {p : SimicsTransaction} (hp : p.packetNumber = packetNo i)
    {l : σ} (hstep : L.clientPut s.link p l) : Numbered L (i + 1) j { s with link := l } := by
  obtain ⟨as, bs, hist, hi, hj, hno⟩ := h
  refine ⟨as ++ [p], bs, hist.put hstep, ?_, hj, ?_⟩
  · rw [List.length_append, hi]
    rfl
  · intro k a ha
    by_cases hk : k < as.length
    · rw [List.getElem?_append_left hk] at ha
      exact hno k a ha
    · have hlt := (List.getElem?_eq_some_iff.mp ha).1
      rw [List.length_append, List.length_singleton] at hlt
      have hlast : k = as.length := by omega
      rw [hlast, List.getElem?_concat_length] at ha
      rw [← Option.some.inj ha, hp, hlast, hi]

-- only a packet with another number than 0 has a reply
theorem get (h : Numbered L (n + 1) n s) {b : SimicsTransaction} {l : σ}
    (hstep : L.clientGet s.link b l) :
    n + 1 ≠ 2 ^ 32 ∧ Numbered L (n + 1) (n + 1) { s with link := l } := by
  obtain ⟨as, bs, hist, hi, hj, hno⟩ := h
  obtain ⟨⟨a, ha, hR⟩, hist'⟩ := hist.get hstep
  constructor
  · intro hn
    have hzero : packetNo n = 0 := (packetNo_eq_zero_iff n).mpr (dvd_of_eq hn.symm)
    have hpos := hR.1
    rw [hj] at ha
    rw [hno n a ha, hzero] at hpos
    exact absurd hpos (by decide)
  · refine ⟨as, bs ++ [b], hist', hi, ?_, hno⟩
    rw [List.length_append, hj]
    rfl

theorem toIdle (h : Numbered L n n s) : s.Idle L RtlAnswer := by
  obtain ⟨as, bs, hist, hi, hj, _⟩ := h
  exact ⟨as, bs, hist, hi.trans hj.symm⟩

theorem waiting (h : Numbered L (n + 1) n s) : ∃ p, s.Waiting L RtlAnswer p := by
  obtain ⟨as, bs, hist, hi, hj, _⟩ := h
  have hlt : bs.length < as.length := by omega
  exact ⟨_, as, bs, hist, by omega, List.getElem?_eq_getElem hlt⟩

-- the RTL side stops on the number 0 alone
theorem not_stopped (h : Numbered L (n + 1) n s) (hn : n + 1 < 2 ^ 32) : s.server ≠ .stopped := by
  intro hstop
  obtain ⟨as, bs, hist, hi, _, hno⟩ := h
  obtain ⟨a, hmem, hzero⟩ := hist.stopped hstop
  obtain ⟨k, hk⟩ := List.mem_iff_getElem?.mp hmem
  have hlt := (List.getElem?_eq_some_iff.mp hk).1
  have hdvd := (packetNo_eq_zero_iff k).mp ((hno k a hk).symm.trans hzero)
  have hle := Nat.le_of_dvd (Nat.succ_pos k) hdvd
  omega

theorem inService (K : L.Ranked) (h : Numbered L (n + 1) n s) (hn : n < 2 ^ 32) :
    InService L K s := by
  obtain ⟨p, hwait⟩ := h.waiting
  have hwithin := (K.within rtlServe_obeys rtlServe_total hwait).keep
    (fun _ _ hs hstep => hs.env hstep) h
  by_cases hlast : n + 1 = 2 ^ 32
  · have hnone : ∀ b l, ¬ L.clientGet s.link b l := fun b l hget => (h.get hget).1 hlast
    refine .stops hlast h hnone (hwithin.imp ?_)
    rintro s' ⟨⟨_, ⟨b, l, hget⟩ | hstop | hdown⟩, hs'⟩
    · exact absurd hlast (hs'.get hget).1
    · exact Or.inl hstop
    · exact Or.inr hdown
  · have hlt : n + 1 < 2 ^ 32 := by omega
    refine .waits hlt h (hwithin.imp ?_)
    rintro s' ⟨⟨_, hget | hstop | hdown⟩, hs'⟩
    · exact Or.inl hget
    · exact absurd hstop (hs'.not_stopped hlt)
    · exact Or.inr hdown

end Numbered

/-! ## The accesses of a device -/

section Device

variable (K : L.Ranked)

-- the access with `n` exchanges before it
def numberedPlan (ok : (c : SysCall) → c.Ret → Prop) {n : ℕ} (hn : n < 2 ^ 32)
    {spd : SimicsTransaction} (hspd : spd.packetNumber = packetNo n) :
    PipePlan (linkPipes L) ok (InService L K) spd where
  idle := Numbered L n n
  sent := fun s => Numbered L (n + 1) n s ∧ s.Waiting L RtlAnswer spd
  done := fun r s => (n + 1 < 2 ^ 32 ∧ Numbered L (n + 1) (n + 1) s) ∧
    ∃ p, r = .packet p ∧ RtlAnswer spd (some p)
  idle_env := fun _ _ hstep h => h.env hstep
  sent_env := fun _ _ hstep h => ⟨h.1.env hstep, h.2.env rtlServe_obeys hstep⟩
  done_env := fun _ _ _ hstep h => ⟨⟨h.1.1, h.1.2.env hstep⟩, h.2⟩
  idle_inv := fun _ h => .idle hn h
  sent_inv := fun _ h => h.1.inService K hn
  done_inv := fun _ _ h => .idle h.1.1 h.1.2
  write := by
    rintro s fd r s' h _ ⟨_, _, l, hput, rfl⟩
    exact ⟨h.put hspd hput, h.toIdle.put hput⟩
  read := by
    rintro s r s' h ⟨_, p, l, hr, hget, rfl⟩
    obtain ⟨hlast, hnext⟩ := h.1.get hget
    exact ⟨⟨by omega, hnext⟩, p, hr, (h.2.get hget).1⟩

-- between two accesses, with `n` exchanges so far
def AtCount (L : RelayLink σ) (n : ℕ) (lib : DeviceLib) (h : Host (LinkedRtl σ)) : Prop :=
  lib.simicsPacketNo = packetNo n ∧ n < 2 ^ 32 ∧ Numbered L n n h.pipes

theorem atCount_steady (n : ℕ) (lib : DeviceLib) :
    Steady (linkPipes L).world (fun h => InService L K h.pipes) (AtCount L n lib) :=
  ⟨fun _ _ henv h => ⟨h.1, h.2.1, h.2.2.env henv.1⟩, fun _ h => .idle h.2.1 h.2.2⟩

variable {ok : (c : SysCall) → c.Ret → Prop}

/-- An access whose pipes open makes its exchange, so it does not have the number 0. -/
theorem access_atCount (hok : ¬ OpenMayFail ok) (a : Access) (htime : a.timeEndFlag = false) {n : ℕ}
    {lib : DeviceLib} {h : Host (LinkedRtl σ)} (hh : AtCount L n lib h) :
    (simicsSendAccessToCosim a).wp ((linkPipes L).world.only ok) (fun h => InService L K h.pipes)
      (fun res lib' h' => AtCount L (n + 1) lib' h' ∧
        LinkEnds a { a.spd with packetNumber := lib.simicsPacketNo } res) lib h := by
  have hspd : { a.spd with packetNumber := lib.simicsPacketNo }.packetNumber = packetNo n := hh.1
  have hplan := simicsSendAccessToCosim_wp a lib (numberedPlan K ok hh.2.1 hspd).toAccessPlan
    (w := h) ⟨trivial, hh.2.2⟩
  refine LibM.wp_mono ?_ hplan
  rintro res lib' h' ⟨hno, ⟨_, htimed | hfail, _⟩ | ⟨r, rfl, _, hcount, p, rfl, hR⟩⟩
  · rw [htime] at htimed
    cases htimed
  · exact absurd hfail hok
  · refine ⟨⟨?_, hcount⟩, Or.inr ⟨p, hR, by rw [ReadResult.packet_ret, ReadResult.store_packet]⟩⟩
    rw [hno, hh.1, packetNo_succ]

-- how many transactions have gone through the RTL side, and what each gives back
def countSpec : Machine ℕ DeviceAccess (ExceptionType × Transaction) := fun n req =>
  (if req.dev.useRtl then n + 1 else n, deviceReturns req)

theorem countSpec_last (n : ℕ) (reqs : List DeviceAccess) :
    countSpec.last n reqs = n + reqs.countP fun req => req.dev.useRtl := by
  induction reqs generalizing n with
  | nil => rfl
  | cons req reqs ih =>
      have hnext : countSpec.last n (req :: reqs) =
          countSpec.last (if req.dev.useRtl then n + 1 else n) reqs := rfl
      rw [hnext, ih, List.countP_cons]
      cases req.dev.useRtl with
      | true =>
          rw [if_pos rfl, if_pos rfl]
          omega
      | false => rw [if_neg Bool.false_ne_true, if_neg Bool.false_ne_true, Nat.add_zero]

theorem issueBody_atCount (hok : ¬ OpenMayFail ok) (req : DeviceAccess) {m : ForwardReceiver}
    (htime : m.timeEndFlag = false) (hs : req.t.size.toNat ≤ maxPayloadSize) {n : ℕ}
    {h : Host (LinkedRtl σ)} (hh : AtCount L n m.lib h) :
    (issueBody req m).wp ((linkPipes L).world.only ok) (fun h => InService L K h.pipes)
      (fun x h' => x.1 = (countSpec n req).2 ∧ x.2.timeEndFlag = false ∧
        AtCount L (countSpec n req).1 x.2.lib h') h := by
  have hbody := issueBody_wp (R := AtCount L (countSpec n req).1)
    (fun lib => (atCount_steady K _ lib).only ok) req m hs (w := h) (fun hrtl => ?_) fun hrtl => ?_
  · refine Prog.wp_mono ?_ hbody
    rintro x h' ⟨hcount, htime', hx⟩
    exact ⟨hx, htime'.trans htime, hcount⟩
  · rw [countSpec, hrtl]
    exact hh
  · have haccess := access_atCount K hok (issueAccess req.dev req.t req.addr m) htime hh
    rw [countSpec, hrtl]
    exact haccess

/-- The objects of a process on any link, one transaction after another from a fresh module on, with
pipes that open: the packets are numbered from 1 on with one on the way at most, the reply to each
but the 2^32-th comes, and as that one has none, fewer than 2^32 transactions through the RTL side
ever end. -/
theorem rtl_lifetime (hok : ¬ OpenMayFail ok) {m : ForwardReceiver}
    (hfresh : m.lib.simicsPacketNo = 1 ∧ m.timeEndFlag = false) {h₀ : Host (LinkedRtl σ)}
    (hstart : h₀.pipes.History L RtlAnswer [] []) {s : DeviceClient σ}
    (hrun : RunsTo (Client.Step (linkPipes L).world issueBody)
      (Client.Meets (fun _ req => req.t.size.toNat ≤ maxPayloadSize) ok) ⟨m, none, h₀, []⟩ s) :
    InService L K s.world.pipes ∧ s.log.countP (fun x => x.1.dev.useRtl) < 2 ^ 32 := by
  have hsteady : ∀ n (m : ForwardReceiver), Steady (linkPipes L).world
      (fun h => InService L K h.pipes) fun h => m.timeEndFlag = false ∧ AtCount L n m.lib h :=
    fun n m => ⟨fun w w' henv h => ⟨h.1, (atCount_steady K n m.lib).env w w' henv h.2⟩,
      fun w h => (atCount_steady K n m.lib).inv w h.2⟩
  have hbody : ∀ n (m : ForwardReceiver) (h : Host (LinkedRtl σ)) (req : DeviceAccess),
      m.timeEndFlag = false ∧ AtCount L n m.lib h → req.t.size.toNat ≤ maxPayloadSize →
      (issueBody req m).wp ((linkPipes L).world.only ok) (fun h => InService L K h.pipes)
        (fun x h' => x.1 = (countSpec n req).2 ∧ x.2.timeEndFlag = false ∧
          AtCount L (countSpec n req).1 x.2.lib h') h :=
    fun _ _ _ req hB hs => issueBody_atCount K hok req hB.1 hs hB.2
  obtain ⟨hservice, _, lib, w, _, hcount⟩ := Client.run_machine countSpec hsteady hbody hrun rfl rfl
    0 ⟨hfresh.2, hfresh.1, by decide, .start hstart⟩
  refine ⟨hservice, ?_⟩
  have hlt := hcount.2.1
  rw [countSpec_last, Nat.zero_add, List.countP_map] at hlt
  exact hlt

end Device

end Lifetime

/-! ## A run -/

theorem promptLink_pipesOpen {σ : Type} {send : σ → SimicsTransaction → Option σ}
    {reply : LinkedRtl σ → Option (SimicsTransaction × LinkedRtl σ)} {h : Host (LinkedRtl σ)}
    {c : SysCall} {x : c.Ret × Host (LinkedRtl σ)} (hx : promptLink send reply h c = some x) :
    pipesOpen c x.1 := by
  cases c with
  | getenv name =>
      cases hx
      cases name with
      | cxlRelayServerPath => exact rfl
      | _ => trivial
  | «open» path =>
      simp only [promptLink, promptPipes] at hx
      by_cases h3 : h.fds 3 = none
      · rw [if_pos h3] at hx
        cases hx
        exact show (0 : ℤ) ≤ 3 by decide
      · rw [if_neg h3] at hx
        by_cases h4 : h.fds 4 = none
        · rw [if_pos h4] at hx
          cases hx
          exact show (0 : ℤ) ≤ 4 by decide
        · rw [if_neg h4] at hx
          cases hx
  | _ => trivial

theorem rtl_lifetime_read :
    ∃ s : DeviceClient FifoState,
      RunsTo (Client.Step (linkPipes fifoLink).world issueBody)
        (Client.Meets (fun _ req => req.t.size.toNat ≤ maxPayloadSize) pipesOpen)
        ⟨.init, none, fifoStart, []⟩ s ∧
      s.log.length = 1 ∧ InService fifoLink fifoRanked s.world.pipes ∧
        s.log.countP (fun x => x.1.dev.useRtl) < 2 ^ 32 := by
  have hends : ((issueBody fourBytesRead .init).runWith?
      (promptLink (fun l p => fifoStep l (.hostEnqueue p)) (promptReply fifoFetch fifoAnswer))
      fifoStart).isSome = true := by
    decide +kernel
  obtain ⟨⟨⟨a, m⟩, h'⟩, hrun⟩ := Option.isSome_iff_exists.mp hends
  have hfits : (4 : UInt32).toNat ≤ maxPayloadSize := by decide
  have hcalls := promptLink_ok fifoLink (fun _ _ _ hl => hl)
    (promptReply_steps fifoLink fifoFetch_steps fifoAnswer_steps)
  have hstep : RunsTo (Client.Step (linkPipes fifoLink).world issueBody)
      (Client.Meets (fun _ req => req.t.size.toNat ≤ maxPayloadSize) pipesOpen)
      ⟨.init, none, fifoStart, []⟩ ⟨m, none, h', [] ++ [(fourBytesRead, a)]⟩ :=
    Client.request? _ (fun h c x hx => ⟨promptLink_pipesOpen hx, (hcalls h c x hx).2⟩) .start hfits
      hrun
  exact ⟨_, hstep, rfl, rtl_lifetime fifoRanked not_openMayFail_pipesOpen ⟨rfl, rfl⟩
    (fifoRtlInit_history .init) hstep⟩

end SimConnect
