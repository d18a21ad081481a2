import SimConnect.HostPipes
import SimConnect.IssueCalls
import SimConnect.RtlResponder
import SimConnect.Foundation.Lockstep

/-!
# The device, a relay and the RTL side

The relay between the device and dpi_sv.c may be any link: what the device gets back is decided by
the round of `run`.  An access either makes no exchange or is answered by the round that took its
own packet.
-/

open SimConnect.Foundation Relation

namespace SimConnect

/-! ## The RTL side as a server -/

-- one round of run on a whole packet, whatever memory the simulator passes
def rtlServe (s : RtlSide) (p : SimicsTransaction) (o : Option (SimicsTransaction × RtlSide)) :
    Prop :=
  ∃ reqMem rspMem retval, o = s.round { read := .packet p, reqMem, rspMem, retval }

/-- What `run` may do with the request `p`: reply as some round does, or finish. -/
def RtlAnswer (p : SimicsTransaction) : Option SimicsTransaction → Prop
  | some b => 0 < p.packetNumber ∧
      ∃ reqMem rspMem rsp, b = dpiResponseData (echoView reqMem rspMem rsp p)
  | none => p.packetNumber = 0

theorem rtlServe_total (s : RtlSide) (p : SimicsTransaction) : ∃ o, rtlServe s p o :=
  ⟨_, fun _ => 0, fun _ => 0, simicsPktSize, rfl⟩

theorem rtlServe_obeys : Obeys rtlServe RtlAnswer := by
  rintro s p o ⟨reqMem, rspMem, retval, rfl⟩
  rw [s.round_reply, ReadResult.request?_packet]
  by_cases hn : 0 < p.packetNumber
  · rw [if_pos hn]
    exact ⟨hn, reqMem, rspMem, s.rsp, rfl⟩
  · rw [if_neg hn]
    have hle : p.packetNumber.toNat ≤ 0 := Nat.le_of_not_lt hn
    exact UInt32.toNat_inj.mp (Nat.le_zero.mp hle)

theorem RtlAnswer.echo {p b : SimicsTransaction} (h : RtlAnswer p (some b))
    (h8 : p.dataSize.toNat ≤ 8) : b = dpiResponseData p := by
  obtain ⟨_, reqMem, rspMem, rsp, rfl⟩ := h
  exact dpiResponseData_echoView reqMem rspMem rsp h8

-- the word that issue reads depends on the first eight bytes alone
theorem loadValue_congr {d d' : Vector UInt8 maxPayloadSize}
    (h : ∀ (i : ℕ) (_ : i < maxPayloadSize), i < 8 → d[i] = d'[i]) :
    loadValue d = loadValue d' := by
  have htake : d.toList.take 8 = d'.toList.take 8 := by
    apply List.ext_getElem
    · rw [List.length_take, List.length_take, Vector.length_toList, Vector.length_toList]
    · intro i hi _
      rw [List.length_take, Vector.length_toList] at hi
      rw [List.getElem_take, List.getElem_take, Vector.getElem_toList, Vector.getElem_toList]
      exact h i (lt_of_lt_of_le hi (Nat.min_le_right _ _))
        (lt_of_lt_of_le hi (Nat.min_le_left _ _))
  rw [loadValue, loadValue, htake]

/-- The reply carries the first eight bytes of the request that its size covers, and zeros after
its size. -/
theorem RtlAnswer.loadValue {p b : SimicsTransaction} (h : RtlAnswer p (some b))
    (hs : p.dataSize.toNat ≤ maxPayloadSize) :
    loadValue b.data = loadValue (dpiResponseData p).data := by
  obtain ⟨_, reqMem, rspMem, rsp, rfl⟩ := h
  have hds := (echoView_header reqMem rspMem rsp hs).2.2.2.2.2
  apply loadValue_congr
  intro i hi h8
  simp only [dpiResponseData]
  by_cases hlt : i < p.dataSize.toNat
  · rw [memcpyData_lt hi (by rwa [hds]), memcpyData_lt hi hlt,
      echoView_data_lt reqMem rspMem rsp hs hi h8, payloadWindow_lt p reqMem hi hlt]
  · have hge := Nat.le_of_not_lt hlt
    rw [memcpyData_ge hi (by rwa [hds]), memcpyData_ge hi hge]

/-! ## The device on a link -/

abbrev RelayLink (σ : Type) := Link SimicsTransaction SimicsTransaction σ

abbrev LinkedRtl (σ : Type) := Served σ SimicsTransaction RtlSide

section Device

variable {σ : Type} (L : RelayLink σ)

/-- The device writes to `request_client` and reads from `reply_client`; both succeed with a whole
packet. -/
def linkPipes : PipeSystem (LinkedRtl σ) where
  write := fun s pipe p r s' =>
    pipe = .requestClient ∧ r = simicsPktSize ∧
      ∃ l, L.clientPut s.link p l ∧ s' = { s with link := l }
  read := fun s pipe r s' =>
    pipe = .replyClient ∧ ∃ p l, r = .packet p ∧ L.clientGet s.link p l ∧ s' = { s with link := l }
  env := Served.Env L rtlServe

-- at most one packet is on the way
def OneOnTheWay (s : LinkedRtl σ) : Prop :=
  s.Idle L RtlAnswer ∨ ∃ p, s.Waiting L RtlAnswer p

theorem idle_steady : Steady (linkPipes L).world (fun h => OneOnTheWay L h.pipes)
    fun h => h.pipes.Idle L RtlAnswer :=
  ⟨fun _ _ henv hidle => hidle.env rtlServe_obeys henv.1, fun _ hidle => Or.inl hidle⟩

-- no answer to a call is ruled out
abbrev linkWorld (L : RelayLink σ) : SysWorld (Host (LinkedRtl σ)) :=
  (linkPipes L).world.only fun _ _ => True

def linkPlan (ok : (c : SysCall) → c.Ret → Prop) (spd : SimicsTransaction) :
    PipePlan (linkPipes L) ok (OneOnTheWay L) spd where
  idle := fun s => s.Idle L RtlAnswer
  sent := fun s => s.Waiting L RtlAnswer spd
  done := fun r s => s.Idle L RtlAnswer ∧ ∃ p, r = .packet p ∧ RtlAnswer spd (some p)
  idle_env := fun _ _ hstep h => h.env rtlServe_obeys hstep
  sent_env := fun _ _ hstep h => h.env rtlServe_obeys hstep
  done_env := fun _ _ _ hstep h => ⟨h.1.env rtlServe_obeys hstep, h.2⟩
  idle_inv := fun _ h => Or.inl h
  sent_inv := fun _ h => Or.inr ⟨spd, h⟩
  done_inv := fun _ _ h => Or.inl h.1
  write := by
    rintro s fd r s' hidle _ ⟨_, _, l, hput, rfl⟩
    exact hidle.put hput
  read := by
    rintro s r s' hsent ⟨_, p, l, hr, hget, rfl⟩
    obtain ⟨hR, hidle⟩ := hsent.get hget
    exact ⟨hidle, p, hr, hR⟩

-- how an access through the link ends
def LinkEnds (a : Access) (spd : SimicsTransaction) (res : AccessResult) : Prop :=
  res = a.noExchange spd ∨
    ∃ p, RtlAnswer spd (some p) ∧ res = { retval := simicsPktSize, spd, rd := p }

/-- An access over pipes that give back what the RTL side answers to its packet. -/
theorem access_answered {Q : Type} {ps : PipeSystem Q} {ok : (c : SysCall) → c.Ret → Prop}
    {I : Q → Prop} (a : Access) (lib : DeviceLib)
    (plan : PipePlan ps ok I { a.spd with packetNumber := lib.simicsPacketNo })
    (hdone : ∀ r q, plan.done r q → plan.idle q ∧ ∃ p, r = .packet p ∧
      RtlAnswer { a.spd with packetNumber := lib.simicsPacketNo } (some p))
    {h : Host Q} (hidle : plan.idle h.pipes) :
    (simicsSendAccessToCosim a).wp (ps.world.only ok) (fun h => I h.pipes)
      (fun res _ h' => plan.idle h'.pipes ∧
        LinkEnds a { a.spd with packetNumber := lib.simicsPacketNo } res) lib h := by
  have hplan := simicsSendAccessToCosim_wp a lib plan.toAccessPlan (w := h) ⟨trivial, hidle⟩
  refine LibM.wp_mono ?_ hplan
  rintro res lib' h' ⟨_, ⟨rfl, _, _, hidle'⟩ | ⟨r, rfl, _, hend⟩⟩
  · exact ⟨hidle', Or.inl rfl⟩
  · obtain ⟨hidle', p, rfl, hR⟩ := hdone r _ hend
    exact ⟨hidle', Or.inr ⟨p, hR, by rw [ReadResult.packet_ret, ReadResult.store_packet]⟩⟩

theorem access_linked (ok : (c : SysCall) → c.Ret → Prop) (a : Access) (lib : DeviceLib)
    {h : Host (LinkedRtl σ)} (hidle : h.pipes.Idle L RtlAnswer) :
    (simicsSendAccessToCosim a).wp ((linkPipes L).world.only ok) (fun h => OneOnTheWay L h.pipes)
      (fun res _ h' => h'.pipes.Idle L RtlAnswer ∧
        LinkEnds a { a.spd with packetNumber := lib.simicsPacketNo } res) lib h :=
  access_answered a lib (linkPlan L ok _) (fun _ _ hend => hend) hidle

/-- What `issue` gives back on a link to the RTL side: a read through it gives 0. -/
def deviceReturns (req : DeviceAccess) : ExceptionType × Transaction :=
  (.noException,
    if req.t.isRead then
      { req.t with
        value := if req.dev.useRtl then 0
          else readValue req.t.opsize req.addr req.dev.dummyReturnValue }
    else req.t)

theorem loadValue_zero : loadValue SimicsTransaction.zero.data = 0 := by decide +kernel

theorem readValue_zero (opsize : ℤ) (addr : UInt64) : readValue opsize addr 0 = 0 := by
  have hshift : ∀ count : ℤ, shiftRight 0 count = 0 := fun count => UInt64.zero_shiftRight
  rw [readValue, hshift, UInt64.zero_and]

-- the request of a read has no payload
theorem loadValue_of_linkEnds {dev : ForwarderDevice} {t : Transaction} {addr : UInt64}
    {m : ForwardReceiver} (hread : t.isRead = true) (hs : t.size.toNat ≤ maxPayloadSize)
    {res : AccessResult}
    (h : LinkEnds (issueAccess dev t addr m) (sentPacket dev t addr m) res) :
    loadValue res.rd.data = 0 := by
  rcases h with rfl | ⟨p, hR, rfl⟩
  · exact loadValue_zero
  · have hsize : (sentPacket dev t addr m).dataSize = t.size := by
      rw [sentPacket, requestPacket, if_pos hread]
    have hdata : (sentPacket dev t addr m).data = SimicsTransaction.zero.data := by
      rw [sentPacket, requestPacket, if_pos hread]
    rw [hR.loadValue (by rwa [hsize]), ← loadValue_zero]
    apply loadValue_congr
    intro i hi _
    simp only [dpiResponseData, hdata]
    by_cases hlt : i < (sentPacket dev t addr m).dataSize.toNat
    · rw [memcpyData_lt hi hlt]
    · rw [memcpyData_ge hi (Nat.le_of_not_lt hlt)]

-- `issue` around its access, for what `R` says of the library and the world
theorem issueBody_wp {W : Type} {e : SysWorld W} {I : W → Prop} {R : DeviceLib → W → Prop}
    (hR : ∀ lib, Steady e I (R lib)) (req : DeviceAccess) (m : ForwardReceiver)
    (hs : req.t.size.toNat ≤ maxPayloadSize) {w : W}
    (hoff : req.dev.useRtl = false → R m.lib w)
    (hon : req.dev.useRtl = true →
      (simicsSendAccessToCosim (issueAccess req.dev req.t req.addr m)).wp e I
        (fun res lib w' => R lib w' ∧
          LinkEnds (issueAccess req.dev req.t req.addr m) (sentPacket req.dev req.t req.addr m) res)
        m.lib w) :
    (issueBody req m).wp e I (fun x w' => R x.2.lib w' ∧ x.2.timeEndFlag = m.timeEndFlag ∧
      x.1 = deviceReturns req) w := by
  rw [issueBody, issue, deviceReturns]
  cases hrtl : req.dev.useRtl with
  | true =>
      rw [if_pos rfl]
      refine Prog.wp_bind (Prog.wp_mono ?_ (hon hrtl))
      rintro ⟨res, lib⟩ w' ⟨hw', hends⟩
      by_cases hread : req.t.isRead = true
      · rw [if_pos hread]
        have hvalue := loadValue_of_linkEnds hread hs hends
        refine Prog.wp_ret (hR lib) (fun w hw => ⟨hw, rfl, ?_⟩) hw'
        simp only [hvalue, readValue_zero, hread, if_true]
      · rw [if_neg hread]
        refine Prog.wp_ret (hR lib) (fun w hw => ⟨hw, rfl, ?_⟩) hw'
        rw [if_neg hread]
  | false =>
      rw [if_neg Bool.false_ne_true]
      by_cases hread : req.t.isRead = true
      · rw [if_pos hread]
        refine Prog.wp_ret (hR m.lib) (fun w hw => ⟨hw, rfl, ?_⟩) (hoff hrtl)
        rw [if_pos hread, if_neg Bool.false_ne_true]
      · rw [if_neg hread]
        refine Prog.wp_ret (hR m.lib) (fun w hw => ⟨hw, rfl, ?_⟩) (hoff hrtl)
        rw [if_neg hread]

theorem issue_linked (ok : (c : SysCall) → c.Ret → Prop) (req : DeviceAccess) (m : ForwardReceiver)
    (hs : req.t.size.toNat ≤ maxPayloadSize) {h : Host (LinkedRtl σ)}
    (hidle : h.pipes.Idle L RtlAnswer) :
    (issueBody req m).wp ((linkPipes L).world.only ok) (fun h => OneOnTheWay L h.pipes)
      (fun x h' => h'.pipes.Idle L RtlAnswer ∧ x.1 = deviceReturns req) h := by
  have hbody := issueBody_wp (fun _ => (idle_steady L).only ok) req m hs (fun _ => hidle) fun _ =>
    access_linked L ok (issueAccess req.dev req.t req.addr m) m.lib hidle
  exact Prog.wp_mono (fun _ _ hx => ⟨hx.1, hx.2.2⟩) hbody

abbrev DeviceClient (σ : Type) :=
  Client SysCall SysCall.Ret (Host (LinkedRtl σ)) ForwardReceiver DeviceAccess
    (ExceptionType × Transaction)

-- the transactions of a run fit the payload; no call is restricted
def PayloadFits (σ : Type) : DeviceClient σ → ClientLabel SysCall SysCall.Ret DeviceAccess → Prop :=
  Client.Meets (fun _ req => req.t.size.toNat ≤ maxPayloadSize) fun _ _ => True

/-- One transaction after another on any link: at every moment at most one packet is on the way, and
every transaction ends as `deviceReturns` says. -/
theorem device_session {m : ForwardReceiver} {h₀ : Host (LinkedRtl σ)}
    (hidle : h₀.pipes.Idle L RtlAnswer) {s : DeviceClient σ}
    (hrun : RunsTo (Client.Step (linkPipes L).world issueBody) (PayloadFits σ)
      ⟨m, none, h₀, []⟩ s) :
    OneOnTheWay L s.world.pipes ∧ ∀ x ∈ s.log, x.2 = deviceReturns x.1 := by
  exact Client.run (G := fun req res _ => res = deviceReturns req) (fun _ => idle_steady L)
    (fun _ _ _ _ _ hgood => hgood) (fun _ _ _ _ _ _ _ hgood => hgood)
    (fun m _ req hidle hs => issue_linked L _ req m hs hidle) hrun rfl rfl hidle

/-! ## A host whose calls succeed -/

/-- Opens succeed while descriptors 3 and 4 are free; `send` is a write to the request pipe, and
`reply` the steps of the others up to a read and the read. -/
def promptPipes {Q : Type} (send : Q → SimicsTransaction → Option Q)
    (reply : Q → Option (SimicsTransaction × Q)) (h : Host Q) :
    (c : SysCall) → Option (c.Ret × Host Q)
  | .open path =>
      if h.fds 3 = none then some ((3 : ℤ), h.setFd 3 (some path.pipe))
      else if h.fds 4 = none then some ((4 : ℤ), h.setFd 4 (some path.pipe))
      else none
  | .close fd => some ((), h.setFd fd none)
  | .write fd p =>
      if h.fds fd = some .requestClient then
        (send h.pipes p).map fun q => ((simicsPktSize : ℤ), { h with pipes := q })
      else none
  | .read fd =>
      if h.fds fd = some .replyClient then
        (reply h.pipes).map fun x => (.packet x.1, { h with pipes := x.2 })
      else none
  | .getenv _ => some (some "", h)
  | .strbuf _ _ => some ((), h)
  | .fopen _ => some (true, h)
  | .localtime => some (true, h)
  | .fprintf _ => some ((), h)
  | .fflush _ => some ((), h)

theorem promptPipes_ok {Q : Type} (ps : PipeSystem Q) {send : Q → SimicsTransaction → Option Q}
    {reply : Q → Option (SimicsTransaction × Q)}
    (hsend : ∀ q p q', send q p = some q' → ps.write q .requestClient p simicsPktSize q')
    (hreply : ∀ q x, reply q = some x → ∃ q₁, ReflTransGen ps.env q q₁ ∧
      ps.read q₁ .replyClient (.packet x.1) x.2)
    (h : Host Q) (c : SysCall) (x : c.Ret × Host Q) (hx : promptPipes send reply h c = some x) :
    True ∧ ∃ h₁, ReflTransGen ps.world.env h h₁ ∧ ps.world.call h₁ c x.1 x.2 := by
  refine ⟨trivial, ?_⟩
  cases c with
  | «open» path =>
      simp only [promptPipes] at hx
      by_cases h3 : h.fds 3 = none
      · rw [if_pos h3] at hx
        cases hx
        exact ⟨h, .refl, Or.inr ⟨(by decide : (0 : ℤ) ≤ 3), h3, rfl⟩⟩
      · rw [if_neg h3] at hx
        by_cases h4 : h.fds 4 = none
        · rw [if_pos h4] at hx
          cases hx
          exact ⟨h, .refl, Or.inr ⟨(by decide : (0 : ℤ) ≤ 4), h4, rfl⟩⟩
        · rw [if_neg h4] at hx
          cases hx
  | write fd p =>
      simp only [promptPipes] at hx
      by_cases hfd : h.fds fd = some .requestClient
      · rw [if_pos hfd] at hx
        obtain ⟨q, hq, rfl⟩ := Option.map_eq_some_iff.mp hx
        refine ⟨h, .refl, ?_⟩
        simp only [PipeSystem.world, PipeSystem.call, hfd, and_true]
        exact hsend _ _ _ hq
      · rw [if_neg hfd] at hx
        cases hx
  | read fd =>
      simp only [promptPipes] at hx
      by_cases hfd : h.fds fd = some .replyClient
      · rw [if_pos hfd] at hx
        obtain ⟨y, hy, rfl⟩ := Option.map_eq_some_iff.mp hx
        obtain ⟨q₁, hsteps, hread⟩ := hreply _ _ hy
        have henv : ∀ q q', ps.env q q' →
            ps.world.env { h with pipes := q } { h with pipes := q' } :=
          fun q q' hstep => ⟨hstep, rfl⟩
        refine ⟨{ h with pipes := q₁ }, hsteps.lift _ henv, ?_⟩
        simp only [PipeSystem.world, PipeSystem.call, hfd, and_true]
        exact hread
      · rw [if_neg hfd] at hx
        cases hx
  | _ =>
      cases hx
      exact ⟨h, .refl, rfl⟩

def promptLink (send : σ → SimicsTransaction → Option σ)
    (reply : LinkedRtl σ → Option (SimicsTransaction × LinkedRtl σ)) :
    Host (LinkedRtl σ) → (c : SysCall) → Option (c.Ret × Host (LinkedRtl σ)) :=
  promptPipes (fun s p => (send s.link p).map fun l => { s with link := l }) reply

theorem promptLink_ok {send : σ → SimicsTransaction → Option σ}
    {reply : LinkedRtl σ → Option (SimicsTransaction × LinkedRtl σ)}
    (hsend : ∀ l p l', send l p = some l' → L.clientPut l p l')
    (hreply : ∀ s x, reply s = some x → ∃ s₁, ReflTransGen (Served.Env L rtlServe) s s₁ ∧
      ∃ l, L.clientGet s₁.link x.1 l ∧ x.2 = { s₁ with link := l })
    (h : Host (LinkedRtl σ)) (c : SysCall) (x : c.Ret × Host (LinkedRtl σ))
    (hx : promptLink send reply h c = some x) :
    True ∧ ∃ h₁, ReflTransGen (linkPipes L).world.env h h₁ ∧
      (linkPipes L).world.call h₁ c x.1 x.2 := by
  refine promptPipes_ok (linkPipes L) ?_ ?_ h c x hx
  · intro s p s' hs
    obtain ⟨l, hl, rfl⟩ := Option.map_eq_some_iff.mp hs
    exact ⟨rfl, rfl, l, hsend _ _ _ hl, rfl⟩
  · intro s y hy
    obtain ⟨s₁, hsteps, l, hget, hs⟩ := hreply _ _ hy
    exact ⟨s₁, hsteps, rfl, y.1, l, rfl, hget, hs⟩

-- a round of `run` that finds memory full of zeros
def zeroRound (p : SimicsTransaction) : RtlRound where
  read := .packet p
  reqMem := fun _ => 0
  rspMem := fun _ => 0
  retval := simicsPktSize

/-- The round for a request that is echoed, without going through the memory. -/
def promptRound (rtl : RtlSide) (p : SimicsTransaction) : Option (SimicsTransaction × RtlSide) :=
  if 0 < p.packetNumber ∧ p.dataSize.toNat ≤ 8 then
    some (dpiResponseData p, ((rtl.round (zeroRound p)).map Prod.snd).getD rtl)
  else none

theorem round_of_promptRound {rtl : RtlSide} {p : SimicsTransaction}
    {x : SimicsTransaction × RtlSide} (h : promptRound rtl p = some x) :
    rtl.round (zeroRound p) = some x := by
  by_cases hp : 0 < p.packetNumber ∧ p.dataSize.toNat ≤ 8
  · rw [promptRound, if_pos hp] at h
    cases h
    have hreply := rtl.round_reply (zeroRound p)
    rw [zeroRound, ReadResult.request?_packet, if_pos hp.1] at hreply
    cases hround : rtl.round (zeroRound p) with
    | none =>
        rw [zeroRound] at hround
        rw [hround] at hreply
        cases hreply
    | some y =>
        rw [zeroRound] at hround
        rw [hround] at hreply
        have hy : y.1 = dpiResponseData p := by
          rw [Option.some.inj hreply]
          exact dpiResponseData_echoView _ _ _ hp.2
        rw [← hy]
        rfl
  · rw [promptRound, if_neg hp] at h
    cases h

/-- The reply to the one packet on the way: `fetch` takes the link up to the server's read, and
`answer` is its write and what follows up to the device's read. -/
def promptReply (fetch : σ → Option (SimicsTransaction × σ))
    (answer : σ → SimicsTransaction → Option (SimicsTransaction × σ)) (s : LinkedRtl σ) :
    Option (SimicsTransaction × LinkedRtl σ) :=
  match s.server with
  | .ready rtl => do
      let p ← fetch s.link
      let x ← promptRound rtl p.1
      let b ← answer p.2 x.1
      some (b.1, ⟨b.2, .ready x.2⟩)
  | _ => none

theorem promptReply_steps {fetch : σ → Option (SimicsTransaction × σ)}
    {answer : σ → SimicsTransaction → Option (SimicsTransaction × σ)}
    (hfetch : ∀ l x, fetch l = some x →
      ∃ l₁, ReflTransGen L.internal l l₁ ∧ L.serverGet l₁ x.1 x.2)
    (hanswer : ∀ l p x, answer l p = some x →
      ∃ l₁ l₂, L.serverPut l p l₁ ∧ ReflTransGen L.internal l₁ l₂ ∧ L.clientGet l₂ x.1 x.2)
    (s : LinkedRtl σ) (x : SimicsTransaction × LinkedRtl σ)
    (h : promptReply fetch answer s = some x) :
    ∃ s₁, ReflTransGen (Served.Env L rtlServe) s s₁ ∧
      ∃ l, L.clientGet s₁.link x.1 l ∧ x.2 = { s₁ with link := l } := by
  obtain ⟨link, server⟩ := s
  cases server with
  | holding t b => cases h
  | stopped => cases h
  | ready rtl =>
      obtain ⟨p, hp, h⟩ := Option.bind_eq_some_iff.mp h
      obtain ⟨y, hround, h⟩ := Option.bind_eq_some_iff.mp h
      obtain ⟨b, hb, h⟩ := Option.bind_eq_some_iff.mp h
      cases h
      obtain ⟨l₁, hgo, htake⟩ := hfetch _ _ hp
      obtain ⟨l₂, l₃, hput, hback, hget⟩ := hanswer _ _ _ hb
      have hserve : rtlServe rtl p.1 (some y) := ⟨_, _, _, (round_of_promptRound hround).symm⟩
      have hserved := (Served.Env.internals hgo (.ready rtl)).tail (.take htake hserve)
      exact ⟨⟨l₃, .ready y.2⟩, (hserved.tail (.put hput)).trans (Served.Env.internals hback _), _,
        hget, rfl⟩

end Device

-- a read of four bytes through the RTL side
def fourBytesRead : DeviceAccess where
  dev := rtlDevice
  t := { isRead := true, size := 4, value := 0x11 }
  addr := 8

end SimConnect
