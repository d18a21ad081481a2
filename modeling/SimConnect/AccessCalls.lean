import SimConnect.AccessRules

/-!
# The calls of one access

What `simics_send_access_to_cosim` does to the pipes, said once: the list of the calls that open,
close, write and read, for every result that these calls may have.
-/

open SimConnect.Foundation

namespace SimConnect

variable {α β : Type}

/-! ## Traces of library programs -/

abbrev SysTrace := List (Σ c, SysCall.Ret c)

namespace LibM

variable {lib : DeviceLib} {t : SysTrace} {o : Option (β × DeviceLib)}

theorem trace_pure {b : β} (h : ((pure b : LibM β).run lib).Trace t o) :
    t = [] ∧ o = some (b, lib) := by
  cases (h : Prog.Trace (.ret (b, lib)) t o)
  exact ⟨rfl, rfl⟩

theorem trace_exit (h : ((exit : LibM β).run lib).Trace t o) : t = [] ∧ o = none := by
  cases (h : Prog.Trace .halt t o)
  exact ⟨rfl, rfl⟩

theorem trace_sys {c : SysCall} {f : c.Ret → LibM β} (h : ((sys c >>= f).run lib).Trace t o) :
    ∃ r t', t = ⟨c, r⟩ :: t' ∧ ((f r).run lib).Trace t' o := by
  cases (h : Prog.Trace (.call c fun r => (f r).run lib) t o) with
  | call r hrest => exact ⟨r, _, rfl, hrest⟩

theorem trace_modify {g : DeviceLib → DeviceLib} {f : PUnit → LibM β}
    (h : ((modify g >>= f).run lib).Trace t o) : ((f ⟨⟩).run (g lib)).Trace t o := h

theorem trace_bind {m : LibM α} {f : α → LibM β} (h : ((m >>= f).run lib).Trace t o) :
    (∃ t₁ t₂ a lib', (m.run lib).Trace t₁ (some (a, lib')) ∧ ((f a).run lib').Trace t₂ o ∧
      t = t₁ ++ t₂) ∨ (o = none ∧ (m.run lib).Trace t none) := by
  rcases Prog.Trace.bind_inv h with ⟨t₁, t₂, a, h₁, h₂, ht⟩ | hhalt
  · exact Or.inl ⟨t₁, t₂, a.1, a.2, h₁, h₂, ht⟩
  · exact Or.inr hhalt

end LibM

/-! ## The calls that matter -/

def ioCalls (t : SysTrace) : SysTrace := t.filter fun x => x.1.isIo

@[simp] theorem ioCalls_nil : ioCalls [] = [] := rfl

@[simp] theorem ioCalls_append (t t' : SysTrace) : ioCalls (t ++ t') = ioCalls t ++ ioCalls t' :=
  List.filter_append _ _

theorem ioCalls_cons_io {c : SysCall} (hc : c.isIo = true) (r : c.Ret) (t : SysTrace) :
    ioCalls (⟨c, r⟩ :: t) = ⟨c, r⟩ :: ioCalls t :=
  List.filter_cons_of_pos hc

theorem ioCalls_cons_quiet {c : SysCall} (hc : c.isIo = false) (r : c.Ret) (t : SysTrace) :
    ioCalls (⟨c, r⟩ :: t) = ioCalls t :=
  List.filter_cons_of_neg (by rw [hc]; exact Bool.false_ne_true)

/-! ## Reading a list of calls -/

section Select

variable {γ : Type}

theorem filterMap_ioCalls {f : (Σ c, SysCall.Ret c) → Option γ}
    (hf : ∀ c r, c.isIo = false → f ⟨c, r⟩ = none) (t : SysTrace) :
    (ioCalls t).filterMap f = t.filterMap f := by
  induction t with
  | nil => rfl
  | cons x t ih =>
      obtain ⟨c, r⟩ := x
      cases hc : c.isIo with
      | true => rw [ioCalls_cons_io hc, List.filterMap_cons, List.filterMap_cons, ih]
      | false => rw [ioCalls_cons_quiet hc, List.filterMap_cons_none (hf c r hc), ih]

def writeCall? : (Σ c, SysCall.Ret c) → Option (ℤ × SimicsTransaction × ℤ)
  | ⟨.write fd p, r⟩ => some (fd, p, r)
  | _ => none

def readCall? : (Σ c, SysCall.Ret c) → Option (ℤ × ReadResult)
  | ⟨.read fd, r⟩ => some (fd, r)
  | _ => none

def fopenCall? : (Σ c, SysCall.Ret c) → Option (String × Bool)
  | ⟨.fopen path, r⟩ => some (path, r)
  | _ => none

def openCall? : (Σ c, SysCall.Ret c) → Option (PipePath × ℤ)
  | ⟨.open path, r⟩ => some (path, r)
  | _ => none

-- the writes of a list of calls, and so on for the others
def writeCalls (t : SysTrace) : List (ℤ × SimicsTransaction × ℤ) := t.filterMap writeCall?

def readCalls (t : SysTrace) : List (ℤ × ReadResult) := t.filterMap readCall?

def fopenCalls (t : SysTrace) : List (String × Bool) := t.filterMap fopenCall?

def openCalls (t : SysTrace) : List (PipePath × ℤ) := t.filterMap openCall?

section Membership

variable {t : SysTrace} {fd : ℤ}

-- `f` picks `y` out of the call `x` and out of no other
theorem mem_select {f : (Σ c, SysCall.Ret c) → Option γ} {x : Σ c, SysCall.Ret c} {y : γ}
    (hx : f x = some y) (honly : ∀ z, f z = some y → z = x) : y ∈ t.filterMap f ↔ x ∈ t := by
  rw [List.mem_filterMap]
  constructor
  · rintro ⟨z, hmem, hz⟩
    rw [← honly z hz]
    exact hmem
  · intro hmem
    exact ⟨x, hmem, hx⟩

theorem mem_writeCalls {p : SimicsTransaction} {r : ℤ} :
    (fd, p, r) ∈ writeCalls t ↔ ⟨.write fd p, r⟩ ∈ t := by
  refine mem_select (f := writeCall?) rfl ?_
  rintro ⟨c, r'⟩ h
  cases c <;> cases h
  rfl

theorem mem_readCalls {r : ReadResult} : (fd, r) ∈ readCalls t ↔ ⟨.read fd, r⟩ ∈ t := by
  refine mem_select (f := readCall?) rfl ?_
  rintro ⟨c, r'⟩ h
  cases c <;> cases h
  rfl

theorem mem_fopenCalls {path : String} {r : Bool} :
    (path, r) ∈ fopenCalls t ↔ ⟨.fopen path, r⟩ ∈ t := by
  refine mem_select (f := fopenCall?) rfl ?_
  rintro ⟨c, r'⟩ h
  cases c <;> cases h
  rfl

end Membership

theorem writeCalls_ioCalls (t : SysTrace) : writeCalls (ioCalls t) = writeCalls t := by
  apply filterMap_ioCalls
  intro c r hc
  cases c <;> first | rfl | cases hc

theorem readCalls_ioCalls (t : SysTrace) : readCalls (ioCalls t) = readCalls t := by
  apply filterMap_ioCalls
  intro c r hc
  cases c <;> first | rfl | cases hc

theorem fopenCalls_ioCalls (t : SysTrace) : fopenCalls (ioCalls t) = fopenCalls t := by
  apply filterMap_ioCalls
  intro c r hc
  cases c <;> first | rfl | cases hc

theorem openCalls_ioCalls (t : SysTrace) : openCalls (ioCalls t) = openCalls t := by
  apply filterMap_ioCalls
  intro c r hc
  cases c <;> first | rfl | cases hc

end Select

-- a program that only writes the log changes nothing of what follows it
theorem LibM.LogOnly.step {m : LibM α} {f : α → LibM β} (hm : m.LogOnly) {lib : DeviceLib}
    {t : SysTrace} {o : Option (β × DeviceLib)} (h : ((m >>= f).run lib).Trace t o) :
    ∃ a lib' t', lib.Agrees lib' ∧ ((f a).run lib').Trace t' o ∧ ioCalls t = ioCalls t' := by
  rcases LibM.trace_bind h with ⟨t₁, t₂, a, lib', h₁, h₂, rfl⟩ | ⟨_, h₁⟩
  · obtain ⟨hquiet, x, hx, hagree⟩ := (hm lib).trace h₁
    cases hx
    have hio : ioCalls t₁ = [] := by
      rw [ioCalls, List.filter_eq_nil_iff]
      intro x hx
      rw [hquiet x hx]
      exact Bool.false_ne_true
    exact ⟨a, lib', t₂, hagree, h₂, by rw [ioCalls_append, hio, List.nil_append]⟩
  · obtain ⟨_, _, hx, _⟩ := (hm lib).trace h₁
    cases hx

/-! ## The calls of an access, for every result they may have -/

-- no path, or an open that fails: open_client_pipe closes what it has opened
inductive NotOpened : SysTrace → Prop
  | noPath : NotOpened []
  | request {dir : String} {fd : ℤ} : fd < 0 → NotOpened [⟨.open ⟨dir, .requestClient⟩, fd⟩]
  | reply {dir : String} {fd fd' : ℤ} : 0 ≤ fd → fd' < 0 →
      NotOpened [⟨.open ⟨dir, .requestClient⟩, fd⟩, ⟨.open ⟨dir, .replyClient⟩, fd'⟩,
        ⟨.close fd, ()⟩]

def bothOpened (dir : String) (fd fd' : ℤ) : SysTrace :=
  [⟨.open ⟨dir, .requestClient⟩, fd⟩, ⟨.open ⟨dir, .replyClient⟩, fd'⟩]

/-- The access that sends `spd`, from the opening of the log on. -/
inductive AccessCalls (a : Access) (spd : SimicsTransaction) :
    SysTrace → Option AccessResult → Prop
  | notOpened {t : SysTrace} : NotOpened t → AccessCalls a spd t (some (a.noExchange spd))
  | enqueueFailed {dir : String} {fd fd' : ℤ} : 0 ≤ fd → 0 ≤ fd' → a.verbose = true →
      AccessCalls a spd (bothOpened dir fd fd' ++ [⟨.write fd spd, (-1 : ℤ)⟩]) none
  | exchanged {dir : String} {fd fd' retval : ℤ} {r : ReadResult} : 0 ≤ fd → 0 ≤ fd' →
      (retval = -1 → a.verbose = false) →
      AccessCalls a spd (bothOpened dir fd fd' ++ [⟨.write fd spd, retval⟩, ⟨.read fd', r⟩])
        (some { retval := r.ret, spd, rd := r.store a.rd })

/-- The whole access: `open_relay_log` may have to open the log first. -/
inductive WholeCalls (a : Access) (spd : SimicsTransaction) : SysTrace → Option AccessResult → Prop
  | plain {t : SysTrace} {o : Option AccessResult} :
      AccessCalls a spd t o → WholeCalls a spd t o
  | log {path : String} {t : SysTrace} {o : Option AccessResult} :
      AccessCalls a spd t o → WholeCalls a spd (⟨.fopen path, true⟩ :: t) o
  | noLog {path : String} : WholeCalls a spd [⟨.fopen path, false⟩] none

section Access

variable {lib : DeviceLib} {t : SysTrace} {spd : SimicsTransaction}

theorem openClientPipe_calls {o : Option (ℤ × DeviceLib)}
    (h : (openClientPipe.run lib).Trace t o) :
    ∃ ret lib', o = some (ret, lib') ∧ lib'.simicsPacketNo = lib.simicsPacketNo ∧
      (ret < 0 ∧ NotOpened (ioCalls t) ∨ ¬ ret < 0 ∧ ∃ dir, 0 ≤ lib'.requestClientPipe ∧
        0 ≤ lib'.replyClientPipe ∧
          ioCalls t = bothOpened dir lib'.requestClientPipe lib'.replyClientPipe) := by
  unfold openClientPipe at h
  obtain ⟨env, t₁, ht, h⟩ := LibM.trace_sys h
  rw [ht, ioCalls_cons_quiet rfl]
  cases env with
  | none =>
      obtain ⟨ht₁, ho⟩ := LibM.trace_pure h
      rw [ht₁]
      exact ⟨-1, lib, ho, rfl, Or.inl ⟨by decide, .noPath⟩⟩
  | some p =>
      -- the four path strings
      obtain ⟨_, t₂, ht₁, h⟩ := LibM.trace_sys h
      obtain ⟨_, t₃, ht₂, h⟩ := LibM.trace_sys h
      obtain ⟨_, t₄, ht₃, h⟩ := LibM.trace_sys h
      obtain ⟨_, t₅, ht₄, h⟩ := LibM.trace_sys h
      rw [ht₁, ioCalls_cons_quiet rfl, ht₂, ioCalls_cons_quiet rfl, ht₃, ioCalls_cons_quiet rfl,
        ht₄, ioCalls_cons_quiet rfl]
      obtain ⟨fd, t₆, ht₅, h⟩ := LibM.trace_sys h
      rw [ht₅, ioCalls_cons_io rfl]
      change Prog.Trace ((if fd < 0 then _ else _ : LibM ℤ).run _) t₆ o at h
      by_cases hfd : fd < 0
      · rw [if_pos hfd] at h
        obtain ⟨ht₆, ho⟩ := LibM.trace_pure h
        rw [ht₆]
        exact ⟨-1, _, ho, rfl, Or.inl ⟨by decide, .request hfd⟩⟩
      · rw [if_neg hfd] at h
        obtain ⟨fd', t₇, ht₆, h⟩ := LibM.trace_sys h
        rw [ht₆, ioCalls_cons_io rfl]
        change Prog.Trace ((if fd' < 0 then _ else _ : LibM ℤ).run _) t₇ o at h
        by_cases hfd' : fd' < 0
        · rw [if_pos hfd'] at h
          obtain ⟨_, t₈, ht₇, h⟩ := LibM.trace_sys h
          obtain ⟨ht₈, ho⟩ := LibM.trace_pure h
          rw [ht₇, ht₈]
          exact ⟨-1, _, ho, rfl, Or.inl ⟨by decide, .reply (Int.not_lt.mp hfd) hfd'⟩⟩
        · rw [if_neg hfd'] at h
          obtain ⟨ht₇, ho⟩ := LibM.trace_pure h
          rw [ht₇]
          exact ⟨0, _, ho, rfl, Or.inr ⟨by decide, p, Int.not_lt.mp hfd, Int.not_lt.mp hfd', rfl⟩⟩

theorem endTiming_calls {rd : SimicsTransaction} {o : Option (AccessResult × DeviceLib)}
    (h : ((endTiming spd rd).run lib).Trace t o) :
    ∃ lib', o = some ({ retval := 0, spd, rd }, lib') ∧
      lib'.simicsPacketNo = lib.simicsPacketNo ∧ ioCalls t = [] := by
  unfold endTiming at h
  obtain ⟨_, lib₁, t₁, h₁, h, hio₁⟩ := printTimestamp_logOnly.step (LibM.trace_modify h)
  obtain ⟨_, lib₂, t₂, h₂, h, hio₂⟩ := printTimestamp_logOnly.step h
  obtain ⟨_, lib₃, t₃, h₃, h, hio₃⟩ := logPrint_logOnly.step h
  obtain ⟨ht₃, ho⟩ := LibM.trace_pure h
  refine ⟨lib₃, ho, (h₁.trans (h₂.trans h₃)).1, ?_⟩
  rw [hio₁, hio₂, hio₃, ht₃, ioCalls_nil]

theorem openFailed_calls {rd : SimicsTransaction} {o : Option (AccessResult × DeviceLib)}
    (h : ((openFailed spd rd).run lib).Trace t o) :
    ∃ lib', o = some ({ retval := -1, spd, rd }, lib') ∧
      lib'.simicsPacketNo = lib.simicsPacketNo ∧ ioCalls t = [] := by
  have hend : ∀ (lib₁ : DeviceLib) (t₁ : SysTrace),
      ((do logPrint; logFlush; return AccessResult.mk (-1) spd rd : LibM AccessResult).run
        lib₁).Trace t₁ o →
      ∃ lib', o = some ({ retval := -1, spd, rd }, lib') ∧
        lib'.simicsPacketNo = lib₁.simicsPacketNo ∧ ioCalls t₁ = [] := by
    intro lib₁ t₁ h
    obtain ⟨_, lib₂, t₂, h₂, h, hio₂⟩ := logPrint_logOnly.step h
    obtain ⟨_, lib₃, t₃, h₃, h, hio₃⟩ := logFlush_logOnly.step h
    obtain ⟨ht₃, ho⟩ := LibM.trace_pure h
    exact ⟨lib₃, ho, (h₂.trans h₃).1, by rw [hio₂, hio₃, ht₃, ioCalls_nil]⟩
  obtain ⟨env, t₁, ht, h⟩ := LibM.trace_sys h
  rw [ht, ioCalls_cons_quiet rfl]
  cases env with
  | none =>
      obtain ⟨_, lib₂, t₂, h₂, h, hio₂⟩ := logPrint_logOnly.step h
      obtain ⟨lib', ho, hno, hio⟩ := hend lib₂ t₂ h
      exact ⟨lib', ho, hno.trans h₂.1, by rw [hio₂, hio]⟩
  | some p => exact hend lib t₁ h

theorem enqueRequestClient_trace {f : Option SimicsTransaction → LibM β}
    {o : Option (β × DeviceLib)} (h : ((enqueRequestClient spd >>= f).run lib).Trace t o) :
    ∃ (retval : ℤ) (t' : SysTrace), t = ⟨.write lib.requestClientPipe spd, retval⟩ :: t' ∧
      ((f (if retval = -1 then none else some spd)).run lib).Trace t' o := by
  cases (h : Prog.Trace (.call (.write lib.requestClientPipe spd) fun retval =>
    (f (simicsEnqueRequestClientTlp retval spd)).run lib) t o) with
  | call retval hrest => exact ⟨retval, _, rfl, hrest⟩

theorem dequeReplyRequestClient_trace {rd : SimicsTransaction}
    {f : ℤ × SimicsTransaction → LibM β} {o : Option (β × DeviceLib)}
    (h : ((dequeReplyRequestClient rd >>= f).run lib).Trace t o) :
    ∃ (r : ReadResult) (t' : SysTrace), t = ⟨.read lib.replyClientPipe, r⟩ :: t' ∧
      ((f (r.ret, r.store rd)).run lib).Trace t' o := by
  cases (h : Prog.Trace (.call (.read lib.replyClientPipe) fun r =>
    (f (simicsDequeReplyRequestClientTlp r rd)).run lib) t o) with
  | call r hrest => exact ⟨r, _, rfl, hrest⟩

-- exchange after the message about the enqueue
def awaitReply (spd rd : SimicsTransaction) (verbose : Bool) : LibM AccessResult := do
  logVerbose verbose
  let reply ← dequeReplyRequestClient rd
  reportReply verbose
  modify fun lib => { lib with numXactions := lib.numXactions + 1 }
  return { retval := reply.1, spd, rd := reply.2 }

theorem awaitReply_calls {rd : SimicsTransaction} {verbose : Bool}
    {o : Option (AccessResult × DeviceLib)}
    (h : ((awaitReply spd rd verbose).run lib).Trace t o) :
    ∃ (r : ReadResult) (lib' : DeviceLib),
      o = some ({ retval := r.ret, spd, rd := r.store rd }, lib') ∧
      lib'.simicsPacketNo = lib.simicsPacketNo ∧ ioCalls t = [⟨.read lib.replyClientPipe, r⟩] := by
  obtain ⟨_, lib₁, t₁, h₁, h, hio₁⟩ := (logVerbose_logOnly verbose).step h
  obtain ⟨r, t₂, ht₁, h⟩ := dequeReplyRequestClient_trace h
  obtain ⟨_, lib₃, t₃, h₃, h, hio₃⟩ := (reportReply_logOnly verbose).step h
  have h := LibM.trace_modify h
  obtain ⟨ht₃, ho⟩ := LibM.trace_pure h
  refine ⟨r, _, ho, (h₁.trans h₃).1, ?_⟩
  rw [hio₁, ht₁, ioCalls_cons_io rfl, hio₃, ht₃, ioCalls_nil, h₁.2.2]

theorem reportEnqueue_some_logOnly (verbose : Bool) (p : SimicsTransaction) :
    (reportEnqueue verbose (some p)).LogOnly :=
  .bind (logVerbose_logOnly verbose) fun _ =>
    .bind simicsPrintFifoPktDataAndLog_logOnly fun _ => .pure _

theorem reportEnqueue_exit {o : Option (Unit × DeviceLib)}
    (h : ((reportEnqueue true none).run lib).Trace t o) : o = none ∧ ioCalls t = [] := by
  unfold reportEnqueue at h
  rw [if_pos rfl] at h
  obtain ⟨_, lib₁, t₁, h₁, h, hio₁⟩ := logPrint_logOnly.step h
  obtain ⟨_, lib₂, t₂, h₂, h, hio₂⟩ := logFlush_logOnly.step h
  obtain ⟨ht₂, ho⟩ := LibM.trace_exit h
  exact ⟨ho, by rw [hio₁, hio₂, ht₂, ioCalls_nil]⟩

theorem exchange_calls {a : Access} {o : Option (AccessResult × DeviceLib)} {dir : String}
    (hfd : 0 ≤ lib.requestClientPipe) (hfd' : 0 ≤ lib.replyClientPipe)
    (h : ((exchange spd a.rd a.verbose).run lib).Trace t o) :
    AccessCalls a spd (bothOpened dir lib.requestClientPipe lib.replyClientPipe ++ ioCalls t)
        (o.map Prod.fst) ∧
      ∀ x, o = some x → x.2.simicsPacketNo = lib.simicsPacketNo := by
  obtain ⟨retval, t₁, ht, h⟩ := enqueRequestClient_trace h
  rw [ht, ioCalls_cons_io rfl]
  -- the part that ends with the read
  have hread : ∀ (lib₂ : DeviceLib) (t₂ : SysTrace), lib.Agrees lib₂ → ioCalls t₁ = ioCalls t₂ →
      (retval = -1 → a.verbose = false) →
      ((awaitReply spd a.rd a.verbose).run lib₂).Trace t₂ o →
      AccessCalls a spd (bothOpened dir lib.requestClientPipe lib.replyClientPipe ++
          ⟨.write lib.requestClientPipe spd, retval⟩ :: ioCalls t₁) (o.map Prod.fst) ∧
        ∀ x, o = some x → x.2.simicsPacketNo = lib.simicsPacketNo := by
    intro lib₂ t₂ h₂ hio₂ hretval h
    obtain ⟨r, lib', ho, hno, hio⟩ := awaitReply_calls h
    rw [hio₂, hio, ho, h₂.2.2]
    refine ⟨.exchanged hfd hfd' hretval, fun x hx => ?_⟩
    rw [← Option.some.inj hx]
    exact hno.trans h₂.1
  by_cases hfail : retval = -1
  · rw [if_pos hfail] at h
    cases hverbose : a.verbose with
    | true =>
        rw [hverbose] at h
        rcases LibM.trace_bind h with ⟨_, _, _, _, hexit, _, _⟩ | ⟨ho, hexit⟩
        · exact absurd (reportEnqueue_exit hexit).1 (by simp)
        · rw [ho, (reportEnqueue_exit hexit).2, hfail]
          exact ⟨.enqueueFailed hfd hfd' hverbose, fun x hx => absurd hx (by simp)⟩
    | false =>
        rw [hverbose] at h
        exact hread lib t₁ (.refl lib) rfl (fun _ => hverbose) (by rw [hverbose]; exact h)
  · rw [if_neg hfail] at h
    obtain ⟨_, lib₂, t₂, h₂, h, hio₂⟩ := (reportEnqueue_some_logOnly a.verbose spd).step h
    exact hread lib₂ t₂ h₂ hio₂ (fun hr => absurd hr hfail) h

theorem accessRest_calls {a : Access} {o : Option (AccessResult × DeviceLib)}
    (h : ((accessRest a spd).run lib).Trace t o) :
    AccessCalls a spd (ioCalls t) (o.map Prod.fst) ∧
      ∀ x, o = some x → x.2.simicsPacketNo = lib.simicsPacketNo := by
  unfold accessRest at h
  by_cases hend : a.timeEndFlag = true
  · rw [if_pos hend] at h
    obtain ⟨lib', ho, hno, hio⟩ := endTiming_calls h
    have hres : a.noExchange spd = { retval := 0, spd, rd := a.rd } := by
      rw [Access.noExchange, if_pos hend]
    rw [hio, ho, Option.map_some, ← hres]
    refine ⟨.notOpened .noPath, fun x hx => ?_⟩
    rw [← Option.some.inj hx]
    exact hno
  · rw [if_neg hend] at h
    have hres : a.noExchange spd = { retval := -1, spd, rd := a.rd } := by
      rw [Access.noExchange, if_neg hend]
    obtain ⟨_, lib₁, t₁, h₁, h, hio₁⟩ := (logVerbose_logOnly a.verbose).step h
    obtain ⟨_, lib₂, t₂, h₂, h, hio₂⟩ := (logVerbose_logOnly a.verbose).step h
    have hno₂ := (h₁.trans h₂).1
    rw [hio₁, hio₂]
    rcases LibM.trace_bind h with ⟨t₃, t₄, ret, lib₃, hopen, h', ht₂⟩ | ⟨_, hopen⟩
    · obtain ⟨ret', lib₃', hx, hno₃, hcalls⟩ := openClientPipe_calls hopen
      cases hx
      rw [ht₂, ioCalls_append]
      rcases hcalls with ⟨hret, hclosed⟩ | ⟨hret, dir, hfd, hfd', hopened⟩
      · rw [if_pos hret] at h'
        obtain ⟨lib', ho, hno, hio⟩ := openFailed_calls h'
        rw [hio, List.append_nil, ho, Option.map_some, ← hres]
        refine ⟨.notOpened hclosed, fun x hx => ?_⟩
        rw [← Option.some.inj hx]
        exact hno.trans (hno₃.trans hno₂)
      · rw [if_neg hret] at h'
        obtain ⟨hcalls, hno⟩ := exchange_calls hfd hfd' h'
        rw [hopened]
        exact ⟨hcalls, fun x hx => (hno x hx).trans (hno₃.trans hno₂)⟩
    · obtain ⟨_, _, hx, _⟩ := openClientPipe_calls hopen
      cases hx

-- open_relay_log: either nothing, or one fopen, which ends the process if it fails
theorem openRelayLog_calls {o : Option (ℤ × DeviceLib)} (h : (openRelayLog.run lib).Trace t o) :
    (∃ ret lib', o = some (ret, lib') ∧ lib.Agrees lib' ∧
      (ioCalls t = [] ∨ ∃ path, ioCalls t = [⟨.fopen path, true⟩])) ∨
    o = none ∧ ∃ path, ioCalls t = [⟨.fopen path, false⟩] := by
  unfold openRelayLog at h
  obtain ⟨env, t₁, ht, h⟩ := LibM.trace_sys h
  rw [ht, ioCalls_cons_quiet rfl]
  cases env with
  | none =>
      obtain ⟨_, t₂, ht₁, h⟩ := LibM.trace_sys h
      obtain ⟨ht₂, ho⟩ := LibM.trace_pure h
      rw [ht₁, ht₂]
      exact Or.inl ⟨-1, lib, ho, .refl lib, Or.inl rfl⟩
  | some p =>
      obtain ⟨_, t₂, ht₁, h⟩ := LibM.trace_sys h
      obtain ⟨_, t₃, ht₂, h⟩ := LibM.trace_sys h
      obtain ⟨_, t₄, ht₃, h⟩ := LibM.trace_sys h
      rw [ht₁, ioCalls_cons_quiet rfl, ht₂, ioCalls_cons_quiet rfl, ht₃, ioCalls_cons_quiet rfl]
      obtain ⟨no, started, num, logfp, fd, fd'⟩ := lib
      cases logfp with
      | false =>
          cases (h : Prog.Trace (.call (.fopen (p ++ "/" ++ "simics_cxl_relay_log.txt")) fun fp =>
            (if !fp then exit else return 0 : LibM ℤ).run ⟨no, started, num, fp, fd, fd'⟩)
              t₄ o) with
          | @call _ _ t₅ _ fp hend =>
              rw [ioCalls_cons_io rfl]
              cases fp with
              | false =>
                  cases (hend : Prog.Trace .halt t₅ o)
                  exact Or.inr ⟨rfl, _, rfl⟩
              | true =>
                  cases (hend : Prog.Trace (.ret ((0 : ℤ), ⟨no, started, num, true, fd, fd'⟩)) t₅ o)
                  exact Or.inl ⟨0, _, rfl, ⟨rfl, rfl, rfl⟩, Or.inr ⟨_, rfl⟩⟩
      | true =>
          cases (h : Prog.Trace (.ret ((0 : ℤ), ⟨no, started, num, true, fd, fd'⟩)) t₄ o)
          exact Or.inl ⟨0, _, rfl, .refl _, Or.inl rfl⟩

-- between the log and the rest of the access the timing may be started
theorem startTiming_trace {a : Access} {o : Option (AccessResult × DeviceLib)}
    (h : ((do
      if a.timeStartFlag && !(← get).timeStarted then
        modify fun lib => { lib with timeStarted := true }
      accessRest a spd : LibM AccessResult).run lib).Trace t o) :
    ∃ timeStarted, ((accessRest a spd).run { lib with timeStarted }).Trace t o := by
  have hstarted : ((if a.timeStartFlag && !lib.timeStarted then do
        modify fun lib => { lib with timeStarted := true }
        accessRest a spd
      else accessRest a spd : LibM AccessResult).run lib).Trace t o := h
  by_cases hstart : (a.timeStartFlag && !lib.timeStarted) = true
  · rw [if_pos hstart] at hstarted
    exact ⟨true, LibM.trace_modify hstarted⟩
  · rw [if_neg hstart] at hstarted
    exact ⟨lib.timeStarted, hstarted⟩

/-- An access makes the calls of one of these lists, and it assigns the next packet number. -/
theorem access_calls {a : Access} {o : Option (AccessResult × DeviceLib)}
    (h : ((simicsSendAccessToCosim a).run lib).Trace t o) :
    WholeCalls a { a.spd with packetNumber := lib.simicsPacketNo } (ioCalls t) (o.map Prod.fst) ∧
      ∀ x, o = some x → x.2.simicsPacketNo = lib.simicsPacketNo + 1 := by
  let spd' := { a.spd with packetNumber := lib.simicsPacketNo }
  let lib' := { lib with simicsPacketNo := lib.simicsPacketNo + 1 }
  -- the packet number comes first, then the log
  have hnext : ((openRelayLog >>= fun _ => do
      if a.timeStartFlag && !(← get).timeStarted then
        modify fun lib => { lib with timeStarted := true }
      accessRest a spd').run lib').Trace t o := h
  rcases LibM.trace_bind hnext with ⟨t₁, t₂, ret, lib₁, hlog, hrest, ht⟩ | ⟨ho, hlog⟩
  · rcases openRelayLog_calls hlog with ⟨ret', lib₁', hx, hagree, hio⟩ | ⟨hx, _⟩
    · cases hx
      obtain ⟨started, hafter⟩ := startTiming_trace hrest
      obtain ⟨hcalls, hno⟩ := accessRest_calls hafter
      have hno' : ∀ x, o = some x → x.2.simicsPacketNo = lib.simicsPacketNo + 1 :=
        fun x hx => (hno x hx).trans hagree.1
      rw [ht, ioCalls_append]
      rcases hio with hnone | ⟨path, hfopen⟩
      · rw [hnone, List.nil_append]
        exact ⟨.plain hcalls, hno'⟩
      · rw [hfopen]
        exact ⟨.log hcalls, hno'⟩
    · cases hx
  · rcases openRelayLog_calls hlog with ⟨_, _, hx, _⟩ | ⟨_, path, hio⟩
    · cases hx
    · rw [ho, hio]
      exact ⟨.noLog, fun x hx => absurd hx (by simp)⟩

end Access

/-! ## What was written and read -/

/-- The four ways in which an access ends, by its writes and its reads. -/
inductive AccessEnd (a : Access) (spd : SimicsTransaction) (t : SysTrace) :
    Option AccessResult → Prop
  | noLog {path : String} : (path, false) ∈ fopenCalls t → writeCalls t = [] → readCalls t = [] →
      AccessEnd a spd t none
  | notOpened : (∀ path, (path, false) ∉ fopenCalls t) → writeCalls t = [] → readCalls t = [] →
      AccessEnd a spd t (some (a.noExchange spd))
  | enqueueFailed {fd : ℤ} : (∀ path, (path, false) ∉ fopenCalls t) →
      writeCalls t = [(fd, spd, -1)] → readCalls t = [] → a.verbose = true →
      AccessEnd a spd t none
  | exchanged {fd fd' retval : ℤ} {r : ReadResult} : (∀ path, (path, false) ∉ fopenCalls t) →
      writeCalls t = [(fd, spd, retval)] → readCalls t = [(fd', r)] →
      (retval = -1 → a.verbose = false) →
      AccessEnd a spd t (some { retval := r.ret, spd, rd := r.store a.rd })

section Ends

variable {a : Access} {spd : SimicsTransaction} {t : SysTrace} {o : Option AccessResult}

-- a log that was opened does not stand out among the calls
theorem AccessCalls.ends {l : SysTrace} (hl : writeCalls l = [] ∧ readCalls l = [])
    (hlog : ∀ path, (path, false) ∉ fopenCalls l) (h : AccessCalls a spd t o) :
    AccessEnd a spd (l ++ t) o := by
  have hwrite : ∀ t : SysTrace, writeCalls (l ++ t) = writeCalls t := fun t => by
    rw [writeCalls, List.filterMap_append, ← writeCalls, hl.1, List.nil_append, writeCalls]
  have hread : ∀ t : SysTrace, readCalls (l ++ t) = readCalls t := fun t => by
    rw [readCalls, List.filterMap_append, ← readCalls, hl.2, List.nil_append, readCalls]
  have hfopen : ∀ t : SysTrace, fopenCalls t = [] →
      ∀ path, (path, false) ∉ fopenCalls (l ++ t) := by
    intro t ht path hmem
    rw [fopenCalls, List.filterMap_append, ← fopenCalls, ← fopenCalls, ht, List.append_nil] at hmem
    exact hlog path hmem
  cases h with
  | notOpened hclosed =>
      cases hclosed with
      | noPath => exact .notOpened (hfopen _ rfl) (hwrite _) (hread _)
      | request _ => exact .notOpened (hfopen _ rfl) (hwrite _) (hread _)
      | reply _ _ => exact .notOpened (hfopen _ rfl) (hwrite _) (hread _)
  | enqueueFailed _ _ hverbose =>
      exact .enqueueFailed (hfopen _ rfl) (hwrite _) (hread _) hverbose
  | exchanged _ _ hverbose => exact .exchanged (hfopen _ rfl) (hwrite _) (hread _) hverbose

theorem WholeCalls.ends (h : WholeCalls a spd (ioCalls t) o) : AccessEnd a spd t o := by
  generalize hl : ioCalls t = l at h
  have hends : AccessEnd a spd l o := by
    cases h with
    | plain h =>
        have hnil : ∀ path, (path, false) ∉ fopenCalls [] := fun _ => List.not_mem_nil
        simpa only [List.nil_append] using h.ends (l := []) ⟨rfl, rfl⟩ hnil
    | log h =>
        exact h.ends (l := [⟨.fopen _, true⟩]) ⟨rfl, rfl⟩ (by simp [fopenCalls, fopenCall?])
    | noLog => exact .noLog (List.mem_singleton_self _) rfl rfl
  have hwrite := writeCalls_ioCalls t
  have hread := readCalls_ioCalls t
  have hfopen := fopenCalls_ioCalls t
  rw [hl] at hwrite hread hfopen
  cases hends with
  | noLog h₁ h₂ h₃ => exact .noLog (hfopen ▸ h₁) (hwrite ▸ h₂) (hread ▸ h₃)
  | notOpened h₁ h₂ h₃ => exact .notOpened (hfopen ▸ h₁) (hwrite ▸ h₂) (hread ▸ h₃)
  | enqueueFailed h₁ h₂ h₃ h₄ => exact .enqueueFailed (hfopen ▸ h₁) (hwrite ▸ h₂) (hread ▸ h₃) h₄
  | exchanged h₁ h₂ h₃ h₄ => exact .exchanged (hfopen ▸ h₁) (hwrite ▸ h₂) (hread ▸ h₃) h₄

end Ends

end SimConnect
