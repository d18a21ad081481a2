import SimConnect.HostPipes

/-!
# Which reply an access takes

The device writes its request and takes whatever is next in the reply pipe.  The cosim on the other
side answers every request once, in order and with the request's packet number.  The reply is the
access's own as long as nothing of an earlier access is still on its way when it begins.
-/

open SimConnect.Foundation Relation

namespace SimConnect

/-! ## The cosim and its pipes -/

/-- `pending` are the requests that the cosim has taken and not answered yet, the oldest first. -/
structure CosimPipes where
  pipes : PipeName → List UInt8
  pending : List SimicsTransaction

namespace CosimPipes

def setPipe (q : CosimPipes) (pipe : PipeName) (bs : List UInt8) : CosimPipes :=
  { q with pipes := Function.update q.pipes pipe bs }

-- the cosim takes a request over whatever its buffer holds
def receive (q : CosimPipes) (old : SimicsTransaction) : CosimPipes :=
  let r := readPipe (q.pipes .requestClient)
  { q.setPipe .requestClient r.2 with pending := q.pending ++ [r.1.store old] }

def answer (q : CosimPipes) (rest : List SimicsTransaction) (reply : SimicsTransaction) :
    CosimPipes :=
  { q.setPipe .replyClient (q.pipes .replyClient ++ reply.image) with pending := rest }

inductive Step (q : CosimPipes) : CosimPipes → Prop
  | receive (old : SimicsTransaction) : q.pipes .requestClient ≠ [] → Step q (q.receive old)
  | answer {p reply : SimicsTransaction} {rest : List SimicsTransaction} :
      q.pending = p :: rest → reply.packetNumber = p.packetNumber → Step q (q.answer rest reply)

/-- Nothing of an earlier access is on its way. -/
structure Clear (q : CosimPipes) : Prop where
  request : q.pipes .requestClient = []
  pending : q.pending = []
  reply : q.pipes .replyClient = []

-- nothing, or one packet of the access that assigned `n` at one of the three places
inductive OnWay (n : UInt32) (q : CosimPipes) : Prop
  | clear : q.Clear → OnWay n q
  | request (bs : List UInt8) : bs.length ≤ simicsPktSize →
      (∀ old : SimicsTransaction, (old.overlay bs).packetNumber = n) → q.pipes .requestClient = bs →
      q.pending = [] → q.pipes .replyClient = [] → OnWay n q
  | pending (p : SimicsTransaction) : p.packetNumber = n → q.pipes .requestClient = [] →
      q.pending = [p] → q.pipes .replyClient = [] → OnWay n q
  | reply (p : SimicsTransaction) : p.packetNumber = n → q.pipes .requestClient = [] →
      q.pending = [] → q.pipes .replyClient = p.image → OnWay n q

variable {q q' : CosimPipes} {n : UInt32}

theorem Clear.step (h : q.Clear) (hstep : q.Step q') : False := by
  cases hstep with
  | receive old hne => exact hne h.request
  | answer hpending _ =>
      rw [h.pending] at hpending
      cases hpending

theorem OnWay.step (h : q.OnWay n) (hstep : q.Step q') : q'.OnWay n := by
  cases h with
  | clear hclear => exact (hclear.step hstep).elim
  | request bs hlen hn hrequest hpending hreply =>
      cases hstep with
      | receive old _ =>
          -- the cosim's read takes all that is there
          have htake : bs.take simicsPktSize = bs := List.take_of_length_le hlen
          have hdrop : bs.drop simicsPktSize = [] := List.drop_eq_nil_of_le hlen
          refine .pending (old.overlay bs) (hn old) ?_ ?_ ?_
          · simp only [CosimPipes.receive, readPipe, hrequest, hdrop, setPipe, Function.update_self]
          · simp only [CosimPipes.receive, readPipe, hrequest, htake, hpending, List.nil_append,
              ReadResult.store]
          · simpa [CosimPipes.receive, setPipe] using hreply
      | answer hp _ =>
          rw [hpending] at hp
          cases hp
  | pending p hn hrequest hpending hreply =>
      cases hstep with
      | receive old hne => exact absurd hrequest hne
      | @answer p' reply rest hp hreplyNo =>
          rw [hpending] at hp
          injection hp with hp hrest
          refine .reply reply (hreplyNo.trans (by rw [← hp, hn])) ?_ hrest.symm ?_
          · simpa [CosimPipes.answer, setPipe] using hrequest
          · simp only [CosimPipes.answer, setPipe, Function.update_self, hreply, List.nil_append]
  | reply p hn hrequest hpending hreply =>
      cases hstep with
      | receive old hne => exact absurd hrequest hne
      | answer hp _ =>
          rw [hpending] at hp
          cases hp

-- a full read from a reply pipe in this state is the access's own reply, and nothing is left
theorem OnWay.read (h : q.OnWay n) {bs rest : List UInt8}
    (hpipe : q.pipes .replyClient = bs ++ rest) (hfull : bs.length = simicsPktSize) :
    (∀ rd : SimicsTransaction, (rd.overlay bs).packetNumber = n) ∧
      (q.setPipe .replyClient rest).Clear := by
  have hempty : q.pipes .replyClient ≠ [] := by
    intro hnil
    rw [(List.append_eq_nil_iff.mp (hpipe.symm.trans hnil)).1] at hfull
    exact absurd hfull (by decide)
  cases h with
  | clear hclear => exact absurd hclear.reply hempty
  | request bs _ _ _ _ hreply => exact absurd hreply hempty
  | pending p _ _ _ hreply => exact absurd hreply hempty
  | reply p hn hrequest hpending hreply =>
      have hsplit : bs ++ rest = p.image ++ [] := by rw [← hpipe, hreply, List.append_nil]
      obtain ⟨hbs, hrest⟩ := List.append_inj hsplit (hfull.trans p.image_length.symm)
      refine ⟨fun rd => ?_, ?_, hpending, ?_⟩
      · rw [hbs, SimicsTransaction.overlay_image, hn]
      · simpa [setPipe] using hrequest
      · simp only [setPipe, Function.update_self, hrest]

end CosimPipes

/-- Any result of a `write` or a `read` of at most a packet: a failure leaves the pipe as it is, a
short count moves that many bytes. -/
def cosimPipes : PipeSystem CosimPipes where
  write := fun q pipe p r q' =>
    (r = -1 ∧ q' = q) ∨
      ∃ k ≤ simicsPktSize, r = k ∧ q' = q.setPipe pipe (q.pipes pipe ++ p.image.take k)
  read := fun q pipe r q' =>
    match r with
    | .fail => q' = q
    | .got bs _ => ∃ rest, q.pipes pipe = bs ++ rest ∧ q' = q.setPipe pipe rest
  env := CosimPipes.Step

/-! ## Runs of accesses -/

-- the state in which an access begins
def nothingLeft (h : Host CosimPipes) (_ : Access) : Prop := h.pipes.Clear

-- a write that gets any of the request out gets its packet number out
def numberWritten : (c : SysCall) → c.Ret → Prop
  | .write _ _, r => r ≤ 0 ∨ 4 ≤ r
  | _, _ => True

def ownReplyPlan (spd : SimicsTransaction) :
    PipePlan cosimPipes numberWritten (fun _ => True) spd where
  idle := CosimPipes.Clear
  sent := CosimPipes.OnWay spd.packetNumber
  done := fun r q =>
    r.IsFull → (∀ rd, (r.store rd).packetNumber = spd.packetNumber) ∧ q.Clear
  idle_env := fun _ _ hstep h => (h.step hstep).elim
  sent_env := fun _ _ hstep h => h.step hstep
  done_env := fun _ _ _ hstep h hfull => ((h hfull).2.step hstep).elim
  idle_inv := fun _ _ => trivial
  sent_inv := fun _ _ => trivial
  done_inv := fun _ _ _ => trivial
  write := by
    rintro q fd r q' hclear hok (⟨_, rfl⟩ | ⟨k, hk, rfl, rfl⟩)
    · exact .clear hclear
    · have hlen : (spd.image.take k).length = k := by
        rw [List.length_take, spd.image_length, Nat.min_eq_left hk]
      have hcount : (k : ℤ) ≤ 0 ∨ 4 ≤ (k : ℤ) := hok
      have hreply : (q.setPipe .requestClient (q.pipes .requestClient ++ spd.image.take k)).pipes
          .replyClient = [] := by
        simpa [CosimPipes.setPipe] using hclear.reply
      rcases Nat.eq_zero_or_pos k with rfl | hpos
      · refine .clear ⟨?_, hclear.pending, hreply⟩
        simp only [CosimPipes.setPipe, Function.update_self, hclear.request, List.take_zero,
          List.append_nil]
      · refine .request (spd.image.take k) (hlen.trans_le hk) (fun old => ?_) ?_ hclear.pending
          hreply
        · exact old.packetNumber_overlay_take spd (by omega)
        · simp only [CosimPipes.setPipe, Function.update_self, hclear.request, List.nil_append]
  read := by
    intro q r q' hsent hread hfull
    cases r with
    | fail => exact absurd hfull (by decide)
    | got bs hbs =>
        obtain ⟨rest, hpipe, rfl⟩ := hread
        exact hsent.read hpipe (Int.ofNat.inj hfull)

-- what is asked of a completed access
def OwnReply (res : AccessResult) : Prop :=
  res.retval = simicsPktSize → res.rd.packetNumber = res.spd.packetNumber

/-- An access that begins with nothing left takes its own reply, and leaves nothing where it gets a
full one. -/
theorem access_ownReply (a : Access) (lib : DeviceLib) {h : Host CosimPipes}
    (hclear : h.pipes.Clear) :
    (accessBody a lib).wp (cosimPipes.world.only numberWritten) (fun _ => True)
      (fun x h' => OwnReply x.1 ∧ (x.1.retval = simicsPktSize → h'.pipes.Clear)) h := by
  have hplan := simicsSendAccessToCosim_wp a lib (ownReplyPlan _).toAccessPlan (w := h)
    ⟨trivial, hclear⟩
  have hown : (simicsSendAccessToCosim a).wp (cosimPipes.world.only numberWritten) (fun _ => True)
      (fun res _ h' => OwnReply res ∧ (res.retval = simicsPktSize → h'.pipes.Clear)) lib h := by
    refine LibM.wp_mono ?_ hplan
    rintro res lib' w ⟨_, ⟨rfl, _, _⟩ | ⟨r, rfl, _, hdone⟩⟩
    · have hnone := a.noExchange_retval_ne { a.spd with packetNumber := lib.simicsPacketNo }
      exact ⟨fun hfull => absurd hfull hnone, fun hfull => absurd hfull hnone⟩
    · exact ⟨fun hfull => (hdone hfull).1 a.rd, fun hfull => (hdone hfull).2⟩
  exact hown

/-! ## A host and a cosim that answer at once -/

-- a cosim that has nothing pending takes the next request and sends it back
def echo (q : CosimPipes) : CosimPipes :=
  match q.pipes .requestClient, q.pending with
  | [], _ => q
  | _ :: _, [] =>
      let q' := q.receive .zero
      q'.answer [] ((readPipe (q.pipes .requestClient)).1.store .zero)
  | _ :: _, _ :: _ => q

-- every open succeeds while one of the descriptors 3 to 6 is free, and a read waits for the cosim
def promptHost (h : Host CosimPipes) : (c : SysCall) → c.Ret × Host CosimPipes
  | .open path =>
      match ([3, 4, 5, 6] : List ℤ).find? fun fd => (h.fds fd).isNone with
      | some fd => (fd, h.setFd fd (some path.pipe))
      | none => ((-1 : ℤ), h)
  | .close fd => ((), h.setFd fd none)
  | .write fd p =>
      match h.fds fd with
      | some pipe =>
          ((simicsPktSize : ℤ),
            { h with pipes := h.pipes.setPipe pipe (h.pipes.pipes pipe ++ p.image) })
      | none => ((-1 : ℤ), h)
  | .read fd =>
      let q := echo h.pipes
      match h.fds fd with
      | some pipe =>
          let r := readPipe (q.pipes pipe)
          (r.1, { h with pipes := q.setPipe pipe r.2 })
      | none => (.fail, { h with pipes := q })
  | .getenv _ => (some "", h)
  | .strbuf _ _ => ((), h)
  | .fopen _ => (true, h)
  | .localtime => (true, h)
  | .fprintf _ => ((), h)
  | .fflush _ => ((), h)

theorem echo_steps (q : CosimPipes) : ReflTransGen CosimPipes.Step q (echo q) := by
  unfold echo
  cases hrequest : q.pipes .requestClient with
  | nil => exact .refl
  | cons b bs =>
      cases hpending : q.pending with
      | cons p rest => exact .refl
      | nil =>
          have hne : q.pipes .requestClient ≠ [] := by rw [hrequest]; exact List.cons_ne_nil _ _
          refine .tail (.single (.receive .zero hne)) ?_
          refine .answer (p := (readPipe (q.pipes .requestClient)).1.store .zero) ?_ ?_
          · simp only [CosimPipes.receive, hpending, List.nil_append]
          · rw [hrequest]

theorem echo_reaches (h : Host CosimPipes) :
    ReflTransGen cosimPipes.world.env h { h with pipes := echo h.pipes } :=
  (echo_steps h.pipes).lift (fun q => { h with pipes := q }) fun _ _ hstep => ⟨hstep, rfl⟩

theorem promptHost_ok (h : Host CosimPipes) (c : SysCall) :
    numberWritten c (promptHost h c).1 ∧ ∃ h₁, ReflTransGen cosimPipes.world.env h h₁ ∧
      cosimPipes.world.call h₁ c (promptHost h c).1 (promptHost h c).2 := by
  cases c with
  | «open» path =>
      refine ⟨trivial, h, .refl, ?_⟩
      cases hfd : ([3, 4, 5, 6] : List ℤ).find? fun fd => (h.fds fd).isNone with
      | none =>
          simp only [promptHost, hfd]
          exact Or.inl ⟨(by decide : (-1 : ℤ) < 0), rfl⟩
      | some fd =>
          simp only [promptHost, hfd]
          have hpos : ∀ fd ∈ ([3, 4, 5, 6] : List ℤ), 0 ≤ fd := by decide
          have hfree := List.find?_some (p := fun fd => (h.fds fd).isNone) hfd
          exact Or.inr ⟨hpos fd (List.mem_of_find?_eq_some hfd), Option.isNone_iff_eq_none.mp hfree,
            rfl⟩
  | close fd => exact ⟨trivial, h, .refl, rfl⟩
  | write fd p =>
      refine ⟨?_, h, .refl, ?_⟩
      · cases hfd : h.fds fd with
        | none =>
            simp only [promptHost, hfd]
            exact Or.inl (by decide : (-1 : ℤ) ≤ 0)
        | some pipe =>
            simp only [promptHost, hfd]
            exact Or.inr (by decide : (4 : ℤ) ≤ simicsPktSize)
      · cases hfd : h.fds fd with
        | none => simp only [promptHost, PipeSystem.world, PipeSystem.call, hfd, and_self]
        | some pipe =>
            simp only [promptHost, PipeSystem.world, PipeSystem.call, hfd, and_true]
            refine Or.inr ⟨simicsPktSize, le_refl _, rfl, ?_⟩
            rw [← p.image_length, List.take_length]
  | read fd =>
      refine ⟨trivial, { h with pipes := echo h.pipes }, echo_reaches h, ?_⟩
      cases hfd : h.fds fd with
      | none => simp only [promptHost, PipeSystem.world, PipeSystem.call, hfd, and_self]
      | some pipe =>
          simp only [promptHost, PipeSystem.world, PipeSystem.call, hfd, and_true]
          exact ⟨_, (List.take_append_drop _ _).symm, rfl⟩
  | getenv name => exact ⟨trivial, h, .refl, rfl⟩
  | strbuf buf s => exact ⟨trivial, h, .refl, rfl⟩
  | fopen path => exact ⟨trivial, h, .refl, rfl⟩
  | localtime => exact ⟨trivial, h, .refl, rfl⟩
  | fprintf fp => exact ⟨trivial, h, .refl, rfl⟩
  | fflush fp => exact ⟨trivial, h, .refl, rfl⟩

/-- In a run whose accesses all begin with nothing left on the way and whose writes put out the
packet number, every access that returns a full packet returns its own reply. -/
theorem every_access_own_reply {lib : DeviceLib} {h₀ : Host CosimPipes} {s : HostClient CosimPipes}
    (hrun : RunsTo (Client.Step cosimPipes.world accessBody)
      (Client.Meets nothingLeft numberWritten) (HostClient.init lib h₀) s) :
    ∀ x ∈ s.log, x.2.retval = simicsPktSize → x.2.rd.packetNumber = x.2.spd.packetNumber := by
  have hsteady : ∀ _ : DeviceLib, Steady cosimPipes.world (fun _ => True) fun _ => True :=
    fun _ => ⟨fun _ _ _ _ => trivial, fun _ _ => trivial⟩
  have hbody : ∀ (lib : DeviceLib) (h : Host CosimPipes) (a : Access), True → nothingLeft h a →
      (accessBody a lib).wp (cosimPipes.world.only numberWritten) (fun _ => True)
        (fun x _ => True ∧ OwnReply x.1) h :=
    fun lib h a _ hclear =>
      Prog.wp_mono (fun _ _ hown => ⟨trivial, hown.1⟩) (access_ownReply a lib hclear)
  exact (Client.run (G := fun _ res _ => OwnReply res) hsteady (fun _ _ _ _ _ hgood => hgood)
    (fun _ _ _ _ _ _ _ hgood => hgood) hbody hrun rfl rfl trivial).2

/-- In a run that starts with nothing left and whose accesses each return a full packet, nothing is
left when an access begins. -/
theorem accesses_begin_clear {lib : DeviceLib} {h₀ : Host CosimPipes} {s : HostClient CosimPipes}
    (h₀clear : h₀.pipes.Clear)
    (hrun : RunsTo (Client.Step cosimPipes.world accessBody)
      (Client.Meets (fun _ _ => True) numberWritten) (HostClient.init lib h₀) s)
    (hfull : ∀ x ∈ s.log, x.2.retval = simicsPktSize) :
    RunsTo (Client.Step cosimPipes.world accessBody) (Client.Meets nothingLeft numberWritten)
      (HostClient.init lib h₀) s := by
  have hsteady : ∀ _ : DeviceLib, Steady cosimPipes.world (fun _ => True)
      fun h : Host CosimPipes => h.pipes.Clear :=
    fun _ => ⟨fun _ _ henv hclear => (hclear.step henv.1).elim, fun _ _ => trivial⟩
  have hbody : ∀ (lib : DeviceLib) (h : Host CosimPipes) (a : Access), h.pipes.Clear →
      (accessBody a lib).wp (cosimPipes.world.only numberWritten) (fun _ => True)
        (fun x h' => x.1.retval = simicsPktSize → h'.pipes.Clear) h :=
    fun lib h a hclear => Prog.wp_mono (fun _ _ hown => hown.2) (access_ownReply a lib hclear)
  exact (Client.run_begins (fun _ (res : AccessResult) => res.retval = simicsPktSize) hsteady
    (fun _ _ _ hclear => hclear) hbody hrun rfl h₀clear hfull).1

-- a host with no pipe open, on pipes that are empty but for `reply`
def hostOn (reply : List UInt8) : Host CosimPipes where
  fds := fun _ => none
  pipes := { pipes := Function.update (fun _ => []) .replyClient reply, pending := [] }

-- the results of accesses one after another, up to one that ends the process
def promptAccesses : ℕ → DeviceLib → Host CosimPipes → List AccessResult
  | 0, _, _ => []
  | n + 1, lib, h =>
      match ((accessBody plainAccess lib).runWith promptHost h).2 with
      | (some (res, lib'), h') => res :: promptAccesses n lib' h'
      | (none, _) => []

def numbers (res : AccessResult) : ℤ × UInt32 × UInt32 :=
  (res.retval, res.rd.packetNumber, res.spd.packetNumber)

theorem promptAccesses_run (n : ℕ) {s₀ : HostClient CosimPipes} {lib : DeviceLib}
    {h : Host CosimPipes} {log : List (Access × AccessResult)}
    (hrun : RunsTo (Client.Step cosimPipes.world accessBody)
      (Client.Meets (fun _ _ => True) numberWritten) s₀ ⟨lib, none, h, log⟩) :
    ∃ s, RunsTo (Client.Step cosimPipes.world accessBody)
      (Client.Meets (fun _ _ => True) numberWritten) s₀ s ∧
        s.log = log ++ (promptAccesses n lib h).map fun res => (plainAccess, res) := by
  induction n generalizing lib h log with
  | zero => exact ⟨_, hrun, (List.append_nil log).symm⟩
  | succ n ih =>
      rw [promptAccesses]
      rcases hres : ((accessBody plainAccess lib).runWith promptHost h).2 with ⟨_ | ⟨res, lib'⟩, h'⟩
      · exact ⟨_, hrun, (List.append_nil log).symm⟩
      · obtain ⟨s, hs, hlog⟩ := ih (Client.request promptHost promptHost_ok hrun trivial hres)
        exact ⟨s, hs, by rw [hlog, List.append_assoc]; rfl⟩

theorem every_access_own_reply_prompt :
    ∃ s : HostClient CosimPipes,
      RunsTo (Client.Step cosimPipes.world accessBody) (Client.Meets nothingLeft numberWritten)
        (HostClient.init .init (hostOn [])) s ∧
      s.log.map (fun x => numbers x.2) = [(288, 1, 1), (288, 2, 2)] ∧
      ∀ x ∈ s.log, x.2.rd.packetNumber = x.2.spd.packetNumber := by
  have hnumbers : (promptAccesses 2 .init (hostOn [])).map numbers =
      [(288, 1, 1), (288, 2, 2)] := by
    decide +kernel
  obtain ⟨s, hrun, hlog⟩ := promptAccesses_run 2
    (.start : RunsTo _ _ (HostClient.init .init (hostOn [])) _)
  have hall : s.log.map (fun x => numbers x.2) = [(288, 1, 1), (288, 2, 2)] := by
    rw [hlog, List.nil_append, List.map_map]
    exact hnumbers
  have hfull : ∀ x ∈ s.log, x.2.retval = simicsPktSize := by
    intro x hx
    have hmem := List.mem_map_of_mem (f := fun x => numbers x.2) hx
    rw [hall, List.mem_cons, List.mem_singleton] at hmem
    rcases hmem with hmem | hmem
    · exact congrArg Prod.fst hmem
    · exact congrArg Prod.fst hmem
  have hclear := accesses_begin_clear ⟨rfl, rfl, rfl⟩ hrun hfull
  exact ⟨s, hclear, hall, fun x hx => every_access_own_reply hclear x hx (hfull x hx)⟩

-- a reply that an earlier run left in the pipe
theorem stale_reply_taken :
    ¬ ∀ (lib : DeviceLib) (h₀ : Host CosimPipes) (s : HostClient CosimPipes),
      Reaches (Client.Step cosimPipes.world accessBody) (HostClient.init lib h₀) s →
      ∀ x ∈ s.log, x.2.retval = simicsPktSize → x.2.rd.packetNumber = x.2.spd.packetNumber := by
  intro hall
  have hnumbers : (promptAccesses 1 .init (hostOn SimicsTransaction.zero.image)).map numbers =
      [(288, 0, 1)] := by
    decide +kernel
  obtain ⟨res, hres, hnumbers⟩ := List.map_eq_singleton_iff.mp hnumbers
  obtain ⟨s, hrun, hlog⟩ := promptAccesses_run 1
    (.start : RunsTo _ _ (HostClient.init .init (hostOn SimicsTransaction.zero.image)) _)
  have hmem : (plainAccess, res) ∈ s.log := by
    rw [hlog, hres]
    exact List.mem_singleton_self _
  have hown := hall _ _ s (hrun.mono fun _ _ _ => trivial) _ hmem (congrArg Prod.fst hnumbers)
  have hrd : res.rd.packetNumber = 0 := congrArg (fun y => y.2.1) hnumbers
  have hspd : res.spd.packetNumber = 1 := congrArg (fun y => y.2.2) hnumbers
  rw [hrd, hspd] at hown
  exact absurd hown (by decide)

end SimConnect
