import SimConnect.AccessCalls
import SimConnect.PacketNumbers
import SimConnect.Verbose
import SimConnect.Foundation.CallRules

/-!
# Environment variables and the access path

`open_relay_log` and `open_client_pipe` copy the values of two environment variables into fixed
buffers, and every access that gets past `open_relay_log` prints to the log.  The strings and the
handles of an access are read off its calls, for every environment.
-/

open SimConnect.Foundation

namespace SimConnect

/-! ## What may go wrong in a call -/

/-- A string fits in its buffer with the terminator, and a `FILE *` that is printed to or flushed
is not NULL. -/
def SysCall.Sound : SysCall → Prop
  | .strbuf buf s => s.utf8ByteSize + 1 ≤ buf.size
  | .fprintf fp => fp = true
  | .fflush fp => fp = true
  | _ => True

def stringCall? : (Σ c, SysCall.Ret c) → Option (StringBuf × String)
  | ⟨.strbuf buf s, _⟩ => some (buf, s)
  | _ => none

def handleCall? : (Σ c, SysCall.Ret c) → Option Bool
  | ⟨.fprintf fp, _⟩ => some fp
  | ⟨.fflush fp, _⟩ => some fp
  | _ => none

def lookup? (name : EnvVar) : (Σ c, SysCall.Ret c) → Option (Option String)
  | ⟨.getenv n, value⟩ => if n = name then some value else none
  | _ => none

-- the strings that the calls build, the handles they use and what they find in a variable
def strings (t : SysTrace) : List (StringBuf × String) := t.filterMap stringCall?

def handles (t : SysTrace) : List Bool := t.filterMap handleCall?

def lookups (name : EnvVar) (t : SysTrace) : List (Option String) := t.filterMap (lookup? name)

@[simp] theorem strings_append (t t' : SysTrace) : strings (t ++ t') = strings t ++ strings t' :=
  List.filterMap_append

@[simp] theorem handles_append (t t' : SysTrace) : handles (t ++ t') = handles t ++ handles t' :=
  List.filterMap_append

@[simp] theorem lookups_append (name : EnvVar) (t t' : SysTrace) :
    lookups name (t ++ t') = lookups name t ++ lookups name t' :=
  List.filterMap_append

def FitsBuf (x : StringBuf × String) : Prop := x.2.utf8ByteSize + 1 ≤ x.1.size

theorem sound_iff (t : SysTrace) :
    (∀ x ∈ t, x.1.Sound) ↔ (∀ x ∈ strings t, FitsBuf x) ∧ ∀ fp ∈ handles t, fp = true := by
  induction t with
  | nil => simp [strings, handles]
  | cons x t ih =>
      obtain ⟨c, r⟩ := x
      rw [List.forall_mem_cons, ih]
      cases c with
      | strbuf buf s =>
          change _ ↔ (∀ x ∈ (buf, s) :: strings t, FitsBuf x) ∧ ∀ fp ∈ handles t, fp = true
          rw [List.forall_mem_cons, and_assoc]
          rfl
      | fprintf fp =>
          change _ ↔ (∀ x ∈ strings t, FitsBuf x) ∧ ∀ f ∈ fp :: handles t, f = true
          rw [List.forall_mem_cons, and_left_comm]
          rfl
      | fflush fp =>
          change _ ↔ (∀ x ∈ strings t, FitsBuf x) ∧ ∀ f ∈ fp :: handles t, f = true
          rw [List.forall_mem_cons, and_left_comm]
          rfl
      | _ => exact and_iff_right trivial

/-! ## Programs that only print -/

-- no string, no lookup, and nothing printed to any handle but `fp`
def SysCall.Plain (fp : Bool) : SysCall → Prop
  | .strbuf _ _ | .getenv _ => False
  | .fprintf fp' | .fflush fp' => fp' = fp
  | _ => True

/-- A program of such calls for the handle that the library has, which it leaves there. -/
def LibM.Plain {α : Type} (m : LibM α) : Prop :=
  ∀ lib : DeviceLib, (m.run lib).Only (SysCall.Plain lib.logfp) fun x => x.2.logfp = lib.logfp

namespace LibM.Plain

variable {α β : Type}

theorem bind {m : LibM α} {f : α → LibM β} (hm : m.Plain) (hf : ∀ a, (f a).Plain) :
    (m >>= f).Plain := by
  intro lib
  apply Prog.Only.bind (hm lib)
  intro x hx
  have hrest := hf x.1 x.2
  rw [hx] at hrest
  exact hrest

theorem pure (a : α) : LibM.Plain (Pure.pure a) := fun _ => rfl

theorem exit : LibM.Plain (SimConnect.exit : LibM α) := fun _ => trivial

theorem get {f : DeviceLib → LibM β} (hf : ∀ lib, (f lib).Plain) : (get >>= f).Plain :=
  fun lib => hf lib lib

theorem modify {g : DeviceLib → DeviceLib} (hg : ∀ lib : DeviceLib, (g lib).logfp = lib.logfp)
    {f : PUnit → LibM β} (hf : (f ⟨⟩).Plain) : (modify g >>= f).Plain := by
  intro lib
  have hrest := hf (g lib)
  rw [hg] at hrest
  exact hrest

-- a call that neither prints, looks up nor builds a string
theorem sys {c : SysCall} (hc : ∀ fp, c.Plain fp) : (SimConnect.sys c).Plain :=
  fun lib => ⟨hc lib.logfp, fun _ => rfl⟩

theorem trace {m : LibM α} (hm : m.Plain) {lib : DeviceLib} {t : SysTrace}
    {o : Option (α × DeviceLib)} (h : (m.run lib).Trace t o) :
    strings t = [] ∧ (∀ name, lookups name t = []) ∧ (∀ fp ∈ handles t, fp = lib.logfp) ∧
      ∀ x, o = some x → x.2.logfp = lib.logfp := by
  obtain ⟨hcalls, hend⟩ := (hm lib).trace h
  refine ⟨?_, ?_, ?_, hend⟩
  · apply List.filterMap_eq_nil_iff.mpr
    intro ⟨c, r⟩ hx
    have hc := hcalls _ hx
    cases c <;> first | rfl | exact hc.elim
  · intro name
    apply List.filterMap_eq_nil_iff.mpr
    intro ⟨c, r⟩ hx
    have hc := hcalls _ hx
    cases c <;> first | rfl | exact hc.elim
  · intro fp hfp
    obtain ⟨⟨c, r⟩, hx, hhandle⟩ := List.mem_filterMap.mp hfp
    have hc := hcalls _ hx
    cases c <;> first
      | exact (Option.some.inj hhandle).symm.trans hc
      | cases hhandle

end LibM.Plain

section Pieces

theorem logPrint_plain : logPrint.Plain := fun _ => ⟨rfl, fun _ => rfl⟩

theorem logFlush_plain : logFlush.Plain := fun _ => ⟨rfl, fun _ => rfl⟩

theorem logVerbose_plain (verbose : Bool) : (logVerbose verbose).Plain := by
  cases verbose with
  | false => exact .pure ()
  | true => exact .bind logPrint_plain fun _ => logFlush_plain

theorem simicsPrintFifoPktDataAndLog_plain : simicsPrintFifoPktDataAndLog.Plain := by
  apply LibM.Plain.bind (.sys (c := .localtime) fun _ => trivial)
  intro tm
  cases tm with
  | false => exact .pure _
  | true =>
      apply LibM.Plain.get
      intro lib
      cases lib.logfp with
      | false => exact .pure _
      | true => exact .bind logPrint_plain fun _ => .bind logFlush_plain fun _ => .pure _

theorem printTimestamp_plain : printTimestamp.Plain := by
  apply LibM.Plain.bind (.sys (c := .localtime) fun _ => trivial)
  intro tm
  cases tm with
  | false => exact .pure _
  | true => exact logPrint_plain

theorem endTiming_plain (spd rd : SimicsTransaction) : (endTiming spd rd).Plain :=
  .modify (by exact fun _ => rfl) <| .bind printTimestamp_plain fun _ =>
    .bind printTimestamp_plain fun _ => .bind logPrint_plain fun _ => .pure _

theorem reportEnqueue_plain (verbose : Bool) (p : Option SimicsTransaction) :
    (reportEnqueue verbose p).Plain := by
  cases p with
  | some p =>
      exact .bind (logVerbose_plain verbose) fun _ =>
        .bind simicsPrintFifoPktDataAndLog_plain fun _ => .pure _
  | none =>
      cases verbose with
      | false => exact .pure _
      | true => exact .bind logPrint_plain fun _ => .bind logFlush_plain fun _ => .exit

theorem reportReply_plain (verbose : Bool) : (reportReply verbose).Plain := by
  apply LibM.Plain.bind (logVerbose_plain verbose)
  intro _
  cases verbose with
  | false =>
      exact .bind simicsPrintFifoPktDataAndLog_plain fun _ => .bind logPrint_plain fun _ =>
        .bind logFlush_plain fun _ => .pure _
  | true =>
      exact .bind logPrint_plain fun _ => .bind simicsPrintFifoPktDataAndLog_plain fun _ =>
        .bind logPrint_plain fun _ => .bind logFlush_plain fun _ =>
        .bind logFlush_plain fun _ => .bind logPrint_plain fun _ => logFlush_plain

theorem exchange_plain (spd rd : SimicsTransaction) (verbose : Bool) :
    (exchange spd rd verbose).Plain := by
  have hend : ∀ reply : ℤ × SimicsTransaction, LibM.Plain (do
      reportReply verbose
      modify fun lib => { lib with numXactions := lib.numXactions + 1 }
      return { retval := reply.1, spd, rd := reply.2 : AccessResult }) := fun reply =>
    .bind (reportReply_plain verbose) fun _ => .modify (by exact fun _ => rfl) (.pure _)
  have henque : (enqueRequestClient spd).Plain :=
    .get fun _ => .bind (.sys fun _ => trivial) fun _ => .pure _
  have hdeque : (dequeReplyRequestClient rd).Plain :=
    .get fun _ => .bind (.sys fun _ => trivial) fun _ => .pure _
  exact .bind henque fun p => .bind (reportEnqueue_plain verbose p) fun _ =>
    .bind (logVerbose_plain verbose) fun _ => .bind hdeque hend

end Pieces

/-! ## Programs that print in any case -/

def SysCall.Prints : SysCall → Prop
  | .fprintf _ | .fflush _ => True
  | _ => False

/-- No complete execution does without a print. -/
def LibM.MustPrint {α : Type} (m : LibM α) : Prop :=
  ∀ lib : DeviceLib, (m.run lib).Makes SysCall.Prints fun _ => False

-- it may do without, but it finishes then
def LibM.MayFinish {α : Type} (m : LibM α) : Prop :=
  ∀ lib : DeviceLib, (m.run lib).Makes SysCall.Prints fun _ => True

namespace LibM.MayFinish

variable {α β : Type}

theorem bind {m : LibM α} {f : α → LibM β} (hm : m.MayFinish) (hf : ∀ a, (f a).MayFinish) :
    (m >>= f).MayFinish := fun lib => (hm lib).bind fun x _ => hf x.1 x.2

theorem pure (a : α) : LibM.MayFinish (Pure.pure a) := fun _ => trivial

theorem get {f : DeviceLib → LibM β} (hf : ∀ lib, (f lib).MayFinish) : (get >>= f).MayFinish :=
  fun lib => hf lib lib

theorem modify {g : DeviceLib → DeviceLib} {f : PUnit → LibM β} (hf : (f ⟨⟩).MayFinish) :
    (modify g >>= f).MayFinish := fun lib => hf (g lib)

theorem sys (c : SysCall) : (SimConnect.sys c).MayFinish := fun _ => Or.inr fun _ => trivial

theorem of_logOnly {m : LibM α} (hm : m.LogOnly) : m.MayFinish := fun lib =>
  (hm lib).makes.mono fun _ _ => trivial

end LibM.MayFinish

namespace LibM.MustPrint

variable {α β : Type}

theorem before {m : LibM α} {f : α → LibM β} (hm : m.MustPrint) : (m >>= f).MustPrint :=
  fun lib => (hm lib).bind fun _ hfalse => hfalse.elim

theorem after {m : LibM α} {f : α → LibM β} (hm : m.MayFinish) (hf : ∀ a, (f a).MustPrint) :
    (m >>= f).MustPrint := fun lib => (hm lib).bind fun x _ => hf x.1 x.2

theorem modify {g : DeviceLib → DeviceLib} {f : PUnit → LibM β} (hf : (f ⟨⟩).MustPrint) :
    (modify g >>= f).MustPrint := fun lib => hf (g lib)

theorem trace {m : LibM α} (hm : m.MustPrint) {lib : DeviceLib} {t : SysTrace}
    {o : Option (α × DeviceLib)} (h : (m.run lib).Trace t o) : handles t ≠ [] := by
  cases (hm lib).trace h with
  | inl hin =>
      obtain ⟨⟨c, r⟩, hx, hprints⟩ := hin
      intro hnil
      have hnone := List.filterMap_eq_nil_iff.mp hnil _ hx
      cases c <;> first | exact hprints.elim | cases hnone
  | inr hend =>
      obtain ⟨_, _, hfalse⟩ := hend
      exact hfalse.elim

end LibM.MustPrint

section Pieces

theorem logPrint_mustPrint : logPrint.MustPrint := fun _ => Or.inl trivial

-- it exits only after a message
theorem reportEnqueue_mayFinish (verbose : Bool) (p : Option SimicsTransaction) :
    (reportEnqueue verbose p).MayFinish := by
  cases p with
  | some p =>
      exact .of_logOnly (reportEnqueue_some_logOnly verbose p)
  | none =>
      cases verbose with
      | false => exact .pure _
      | true => exact fun _ => Or.inl trivial

theorem endTiming_mustPrint (spd rd : SimicsTransaction) : (endTiming spd rd).MustPrint :=
  .modify <| .after (.of_logOnly printTimestamp_logOnly) fun _ =>
    .after (.of_logOnly printTimestamp_logOnly) fun _ => .before logPrint_mustPrint

theorem reportReply_mustPrint (verbose : Bool) : (reportReply verbose).MustPrint := by
  apply LibM.MustPrint.after (.of_logOnly (logVerbose_logOnly verbose))
  intro _
  cases verbose with
  | false =>
      exact .after (.of_logOnly simicsPrintFifoPktDataAndLog_logOnly) fun _ =>
        .before logPrint_mustPrint
  | true => exact .before logPrint_mustPrint

theorem exchange_mustPrint (spd rd : SimicsTransaction) (verbose : Bool) :
    (exchange spd rd verbose).MustPrint := by
  have henque : (enqueRequestClient spd).MayFinish :=
    .get fun _ => .bind (.sys _) fun _ => .pure _
  have hdeque : (dequeReplyRequestClient rd).MayFinish :=
    .get fun _ => .bind (.sys _) fun _ => .pure _
  exact .after henque fun p => .after (reportEnqueue_mayFinish verbose p) fun _ =>
    .after (.of_logOnly (logVerbose_logOnly verbose)) fun _ => .after hdeque fun _ =>
      .before (reportReply_mustPrint verbose)

end Pieces

/-! ## The strings and the handles of an access -/

def logStrings : Option String → List (StringBuf × String)
  | none => [(.cxlRelayLogPath, "./")]
  | some p => [(.cxlRelayLogPath, p), (.cxlRelayLogPath, p ++ "/"),
      (.logfile, p ++ "/" ++ "simics_cxl_relay_log.txt")]

def pipeStrings : Option String → List (StringBuf × String)
  | none => []
  | some p => [(.pipeStr .requestClient, PipePath.str ⟨p, .requestClient⟩),
      (.pipeStr .replyClient, PipePath.str ⟨p, .replyClient⟩),
      (.pipeStr .requestServer, PipePath.str ⟨p, .requestServer⟩),
      (.pipeStr .replyServer, PipePath.str ⟨p, .replyServer⟩)]

/-- The calls of a piece of an access that starts with the handle `fp`: it builds the strings `ss`,
looks up no path of the log, prints to `fp` alone and leaves it there. -/
structure PieceCalls {α : Type} (fp : Bool) (ss : List (StringBuf × String)) (t : SysTrace)
    (o : Option (α × DeviceLib)) : Prop where
  strings : strings t = ss
  log : lookups .cxlRelayLogPath t = []
  handles : ∀ f ∈ handles t, f = fp
  logfp : ∀ x, o = some x → x.2.logfp = fp

section Access

variable {α β : Type} {lib : DeviceLib} {t : SysTrace} {spd rd : SimicsTransaction}

theorem LibM.Plain.pieceCalls {m : LibM α} (hm : m.Plain) {o : Option (α × DeviceLib)}
    (h : (m.run lib).Trace t o) : PieceCalls lib.logfp [] t o := by
  obtain ⟨hstrings, hlookups, hhandles, hlogfp⟩ := hm.trace h
  exact ⟨hstrings, hlookups _, hhandles, hlogfp⟩

-- one piece after another
theorem PieceCalls.append {fp : Bool} {ss ss' : List (StringBuf × String)} {t₁ t₂ : SysTrace}
    {o₁ : Option (α × DeviceLib)} {o : Option (β × DeviceLib)} (h₁ : PieceCalls fp ss t₁ o₁)
    (h₂ : PieceCalls fp ss' t₂ o) : PieceCalls fp (ss ++ ss') (t₁ ++ t₂) o where
  strings := by rw [strings_append, h₁.strings, h₂.strings]
  log := by rw [lookups_append, h₁.log, h₂.log, List.append_nil]
  handles := by
    rw [handles_append, List.forall_mem_append]
    exact ⟨h₁.handles, h₂.handles⟩
  logfp := h₂.logfp

-- open_client_pipe after its getenv and its strings
def openBoth (p : String) : LibM ℤ := do
  let requestFd ← sys (.open ⟨p, .requestClient⟩)
  modify fun lib => { lib with requestClientPipe := requestFd }
  if requestFd < 0 then
    return -1
  else
    let replyFd ← sys (.open ⟨p, .replyClient⟩)
    modify fun lib => { lib with replyClientPipe := replyFd }
    if replyFd < 0 then
      sys (.close requestFd)
      return -1
    else
      return 0

theorem openBoth_plain (p : String) : (openBoth p).Plain := by
  apply LibM.Plain.bind (.sys (c := .open _) fun _ => trivial)
  intro requestFd
  apply LibM.Plain.modify (by exact fun _ => rfl)
  by_cases hrequest : (requestFd : ℤ) < 0
  · rw [if_pos hrequest]
    exact .pure _
  · rw [if_neg hrequest]
    apply LibM.Plain.bind (.sys (c := .open _) fun _ => trivial)
    intro replyFd
    apply LibM.Plain.modify (by exact fun _ => rfl)
    by_cases hreply : (replyFd : ℤ) < 0
    · rw [if_pos hreply]
      exact .bind (.sys (c := .close _) fun _ => trivial) fun _ => .pure _
    · rw [if_neg hreply]
      exact .pure _

theorem openClientPipe_pieceCalls {o : Option (ℤ × DeviceLib)}
    (h : (openClientPipe.run lib).Trace t o) :
    ∃ env, lookups .cxlRelayServerPath t = [env] ∧
      PieceCalls lib.logfp (pipeStrings env) t o := by
  obtain ⟨env, t₁, ht, h⟩ := LibM.trace_sys h
  refine ⟨env, ?_⟩
  cases env with
  | none =>
      obtain ⟨ht₁, ho⟩ := LibM.trace_pure h
      rw [ht, ht₁, ho]
      refine ⟨rfl, rfl, rfl, fun f hf => absurd hf List.not_mem_nil, fun x hx => ?_⟩
      rw [← Option.some.inj hx]
  | some p =>
      obtain ⟨_, t₂, ht₁, h⟩ := LibM.trace_sys h
      obtain ⟨_, t₃, ht₂, h⟩ := LibM.trace_sys h
      obtain ⟨_, t₄, ht₃, h⟩ := LibM.trace_sys h
      obtain ⟨_, t₅, ht₄, h⟩ := LibM.trace_sys h
      obtain ⟨hstrings, hlookups, hhandles, hlogfp⟩ :=
        (openBoth_plain p).trace (show ((openBoth p).run lib).Trace t₅ o from h)
      rw [ht, ht₁, ht₂, ht₃, ht₄]
      refine ⟨?_, ?_, ?_, hhandles, hlogfp⟩
      · change some p :: lookups .cxlRelayServerPath t₅ = [some p]
        rw [hlookups]
      · change pipeStrings (some p) ++ strings t₅ = pipeStrings (some p)
        rw [hstrings, List.append_nil]
      · exact hlookups _

-- the message of openFailed, whichever it is
theorem openFailed_pieceCalls {o : Option (AccessResult × DeviceLib)}
    (h : ((openFailed spd rd).run lib).Trace t o) : PieceCalls lib.logfp [] t o := by
  obtain ⟨env, t₁, ht, h⟩ := LibM.trace_sys h
  have hend : LibM.Plain (do logPrint; logFlush; return AccessResult.mk (-1) spd rd) :=
    .bind logPrint_plain fun _ => .bind logFlush_plain fun _ => .pure _
  have hrest : PieceCalls lib.logfp [] t₁ o := by
    cases env with
    | none => exact (LibM.Plain.bind logPrint_plain fun _ => hend).pieceCalls h
    | some p => exact hend.pieceCalls h
  rw [ht]
  exact ⟨hrest.strings, hrest.log, hrest.handles, hrest.logfp⟩

-- the path that open_client_pipe finds is the first one that the access looks up
abbrev pipePath (t : SysTrace) : Option String := (lookups .cxlRelayServerPath t).head?.join

-- a plain program in front changes nothing of that
theorem LibM.Plain.thenRest {m : LibM α} {f : α → LibM β} (hm : m.Plain)
    {o : Option (β × DeviceLib)}
    (hf : ∀ a lib' t', lib'.logfp = lib.logfp → ((f a).run lib').Trace t' o →
      PieceCalls lib'.logfp (pipeStrings (pipePath t')) t' o)
    (h : ((m >>= f).run lib).Trace t o) :
    PieceCalls lib.logfp (pipeStrings (pipePath t)) t o := by
  rcases LibM.trace_bind h with ⟨t₁, t₂, a, lib', h₁, h₂, ht⟩ | ⟨ho, hhalt⟩
  · have hlib : lib'.logfp = lib.logfp := (hm.trace h₁).2.2.2 _ rfl
    have hrest := hf a lib' t₂ hlib h₂
    rw [hlib] at hrest
    have hpath : pipePath t = pipePath t₂ := by
      rw [pipePath, ht, lookups_append, (hm.trace h₁).2.1, List.nil_append]
    rw [hpath, ht]
    exact (hm.pieceCalls h₁).append hrest
  · have hpath : pipePath t = none := by
      rw [pipePath, (hm.trace hhalt).2.1]
      rfl
    have hcalls := hm.pieceCalls hhalt
    rw [hpath, ho]
    exact ⟨hcalls.strings, hcalls.log, hcalls.handles, fun x hx => absurd hx (by simp)⟩

theorem accessRest_pieceCalls {a : Access} {o : Option (AccessResult × DeviceLib)}
    (h : ((accessRest a spd).run lib).Trace t o) :
    PieceCalls lib.logfp (pipeStrings (pipePath t)) t o := by
  unfold accessRest at h
  by_cases hend : a.timeEndFlag = true
  · rw [if_pos hend] at h
    have hplain := endTiming_plain spd a.rd
    rw [pipePath, (hplain.trace h).2.1]
    exact hplain.pieceCalls h
  · rw [if_neg hend] at h
    refine (logVerbose_plain a.verbose).thenRest (fun _ lib₁ t₁ _ h₁ => ?_) h
    refine (logVerbose_plain a.verbose).thenRest (fun _ lib₂ t₂ _ h₂ => ?_) h₁
    rcases LibM.trace_bind h₂ with ⟨t₃, t₄, ret, lib₃, hopen, hrest, ht⟩ | ⟨ho, hopen⟩
    · obtain ⟨env, hlookups, hcalls⟩ := openClientPipe_pieceCalls hopen
      have hpath : pipePath t₂ = env := by
        rw [pipePath, ht, lookups_append, hlookups]
        rfl
      have hlib : lib₃.logfp = lib₂.logfp := hcalls.logfp _ rfl
      have hafter : PieceCalls lib₃.logfp [] t₄ o := by
        by_cases hret : ret < 0
        · rw [if_pos hret] at hrest
          exact openFailed_pieceCalls hrest
        · rw [if_neg hret] at hrest
          exact (exchange_plain spd a.rd a.verbose).pieceCalls hrest
      rw [hlib] at hafter
      rw [hpath, ht, ← List.append_nil (pipeStrings env)]
      exact hcalls.append hafter
    · obtain ⟨env, hlookups, hcalls⟩ := openClientPipe_pieceCalls hopen
      have hpath : pipePath t₂ = env := by
        rw [pipePath, hlookups]
        rfl
      rw [hpath, ho]
      exact ⟨hcalls.strings, hcalls.log, hcalls.handles, fun x hx => absurd hx (by simp)⟩

theorem openClientPipe_mayFinish : openClientPipe.MayFinish := by
  have hboth : ∀ p, (openBoth p).MayFinish := by
    intro p
    apply LibM.MayFinish.bind (.sys _)
    intro requestFd
    apply LibM.MayFinish.modify
    by_cases hrequest : (requestFd : ℤ) < 0
    · rw [if_pos hrequest]
      exact .pure _
    · rw [if_neg hrequest]
      apply LibM.MayFinish.bind (.sys _)
      intro replyFd
      apply LibM.MayFinish.modify
      by_cases hreply : (replyFd : ℤ) < 0
      · rw [if_pos hreply]
        exact .bind (.sys _) fun _ => .pure _
      · rw [if_neg hreply]
        exact .pure _
  apply LibM.MayFinish.bind (.sys _)
  intro env
  cases env with
  | none => exact .pure _
  | some p =>
      exact .bind (.sys _) fun _ => .bind (.sys _) fun _ => .bind (.sys _) fun _ =>
        .bind (.sys _) fun _ => hboth p

theorem openFailed_mustPrint (spd rd : SimicsTransaction) : (openFailed spd rd).MustPrint := by
  apply LibM.MustPrint.after (.sys (.getenv .cxlRelayServerPath))
  intro env
  cases env with
  | none => exact .before logPrint_mustPrint
  | some p => exact .before logPrint_mustPrint

theorem accessRest_mustPrint (a : Access) (spd : SimicsTransaction) :
    (accessRest a spd).MustPrint := by
  unfold accessRest
  by_cases hend : a.timeEndFlag = true
  · rw [if_pos hend]
    exact endTiming_mustPrint spd a.rd
  · rw [if_neg hend]
    apply LibM.MustPrint.after (.of_logOnly (logVerbose_logOnly _))
    intro _
    apply LibM.MustPrint.after (.of_logOnly (logVerbose_logOnly _))
    intro _
    apply LibM.MustPrint.after openClientPipe_mayFinish
    intro ret
    by_cases hret : ret < 0
    · rw [if_pos hret]
      exact openFailed_mustPrint spd a.rd
    · rw [if_neg hret]
      exact exchange_mustPrint spd a.rd a.verbose

-- the log is open afterwards if it was before or if there is a path for it
theorem relayLogAt_calls {env : Option String} {o : Option (ℤ × DeviceLib)}
    (h : ((relayLogAt env).run lib).Trace t o) :
    strings t = logStrings env ∧ (∀ name, lookups name t = []) ∧ handles t = [] ∧
      (∀ x, o = some x → x.2.logfp = (lib.logfp || env.isSome)) ∧
      (o = none → env.isSome = true) := by
  cases env with
  | none =>
      obtain ⟨_, t₁, ht, h⟩ := LibM.trace_sys h
      obtain ⟨ht₁, ho⟩ := LibM.trace_pure h
      rw [ht, ht₁, ho]
      refine ⟨rfl, fun _ => rfl, rfl, fun x hx => ?_, fun hx => absurd hx (by simp)⟩
      rw [← Option.some.inj hx]
      exact (Bool.or_false _).symm
  | some p =>
      obtain ⟨_, t₁, ht, h⟩ := LibM.trace_sys h
      obtain ⟨_, t₂, ht₁, h⟩ := LibM.trace_sys h
      obtain ⟨_, t₃, ht₂, h⟩ := LibM.trace_sys h
      rw [ht, ht₁, ht₂]
      obtain ⟨no, started, num, logfp, fd, fd'⟩ := lib
      cases logfp with
      | true =>
          cases (h : Prog.Trace (.ret ((0 : ℤ), ⟨no, started, num, true, fd, fd'⟩)) t₃ o)
          refine ⟨rfl, fun _ => rfl, rfl, fun x hx => ?_, fun _ => rfl⟩
          rw [← Option.some.inj hx]
          rfl
      | false =>
          cases (h : Prog.Trace (.call (.fopen (p ++ "/" ++ "simics_cxl_relay_log.txt")) fun fp =>
            (if !fp then exit else return 0 : LibM ℤ).run ⟨no, started, num, fp, fd, fd'⟩)
              t₃ o) with
          | @call _ _ t₄ _ fp hend =>
              cases fp with
              | false =>
                  cases (hend : Prog.Trace .halt t₄ o)
                  exact ⟨rfl, fun _ => rfl, rfl, fun x hx => absurd hx (by simp), fun _ => rfl⟩
              | true =>
                  cases (hend : Prog.Trace (.ret ((0 : ℤ), ⟨no, started, num, true, fd, fd'⟩)) t₄ o)
                  refine ⟨rfl, fun _ => rfl, rfl, fun x hx => ?_, fun _ => rfl⟩
                  rw [← Option.some.inj hx]
                  rfl

-- the rest of an access prints, and to the handle that it starts with
theorem accessRest_handles {a : Access} {o : Option (AccessResult × DeviceLib)}
    (h : ((accessRest a spd).run lib).Trace t o) :
    (∀ f ∈ handles t, f = true) ↔ lib.logfp = true := by
  have hcalls := accessRest_pieceCalls h
  constructor
  · intro htrue
    obtain ⟨f, hf⟩ := List.exists_mem_of_ne_nil _ ((accessRest_mustPrint a spd).trace h)
    rw [← hcalls.handles f hf, htrue f hf]
  · intro hlib f hf
    rw [hcalls.handles f hf, hlib]

/-- The strings of an access are those of the two paths that it finds, and its handles are good
exactly when the log was open before or it finds a path for it. -/
theorem access_parts {a : Access} {o : Option (AccessResult × DeviceLib)}
    (h : (accessBody a lib).Trace t o) :
    ∃ env, lookups .cxlRelayLogPath t = [env] ∧
      strings t = logStrings env ++ pipeStrings (pipePath t) ∧
      ((∀ f ∈ handles t, f = true) ↔ (lib.logfp || env.isSome) = true) ∧
      ∀ x, o = some x → x.2.logfp = (lib.logfp || env.isSome) := by
  let spd' := { a.spd with packetNumber := lib.simicsPacketNo }
  rw [accessBody, access_run] at h
  cases h with
  | @call _ _ t' _ env h =>
  refine ⟨env, ?_⟩
  change ((relayLogAt env >>= fun _ => do
    if a.timeStartFlag && !(← get).timeStarted then
      modify fun lib => { lib with timeStarted := true }
    accessRest a spd').run _).Trace t' o at h
  rcases LibM.trace_bind h with ⟨t₁, t₂, ret, lib₁, hlog, hrest, ht⟩ | ⟨ho, hlog⟩
  · obtain ⟨hstrings, hlookups, hhandles, hlogfp, -⟩ := relayLogAt_calls hlog
    have hlib₁ : lib₁.logfp = (lib.logfp || env.isSome) := hlogfp _ rfl
    obtain ⟨started, hafter⟩ := startTiming_trace hrest
    have hcalls := accessRest_pieceCalls hafter
    have hgood := accessRest_handles hafter
    rw [hlib₁] at hgood
    have hpath : pipePath (⟨.getenv .cxlRelayLogPath, env⟩ :: t') = pipePath t₂ := by
      change (lookups .cxlRelayServerPath t').head?.join = _
      rw [ht, lookups_append, hlookups, List.nil_append]
    rw [hpath]
    refine ⟨?_, ?_, ?_, ?_⟩
    · change env :: lookups .cxlRelayLogPath t' = [env]
      rw [ht, lookups_append, hlookups, hcalls.log, List.append_nil]
    · change strings t' = _
      rw [ht, strings_append, hstrings, hcalls.strings]
    · change (∀ f ∈ handles t', f = true) ↔ _
      rw [ht, handles_append, hhandles, List.nil_append]
      exact hgood
    · intro x hx
      rw [hcalls.logfp x hx, hlib₁]
  · -- the log could not be opened, and the process has ended
    obtain ⟨hstrings, hlookups, hhandles, -, hsome⟩ := relayLogAt_calls hlog
    refine ⟨?_, ?_, ?_, ?_⟩
    · change env :: lookups .cxlRelayLogPath t' = [env]
      rw [hlookups]
    · change strings t' = _ ++ pipeStrings ((lookups .cxlRelayServerPath t').head?.join)
      rw [hlookups, hstrings]
      exact (List.append_nil _).symm
    · change (∀ f ∈ handles t', f = true) ↔ _
      rw [hhandles, hsome rfl, Bool.or_true]
      exact iff_of_true (fun f hf => absurd hf List.not_mem_nil) rfl
    · intro x hx
      rw [ho] at hx
      cases hx

end Access

/-! ## Lengths -/

-- the name of the log and a slash take 25 bytes of the 1024, the terminator one
theorem logStrings_fit_iff (env : Option String) :
    (∀ x ∈ logStrings env, FitsBuf x) ↔ ∀ p, env = some p → p.utf8ByteSize ≤ 998 := by
  cases env with
  | none =>
      have hdot : FitsBuf (.cxlRelayLogPath, "./") := show "./".utf8ByteSize + 1 ≤ 4096 by decide
      rw [logStrings, List.forall_mem_singleton]
      exact iff_of_true hdot fun p hp => absurd hp (by simp)
  | some p =>
      have hslash : "/".utf8ByteSize = 1 := by decide
      have hname : "simics_cxl_relay_log.txt".utf8ByteSize = 24 := by decide
      simp only [logStrings, List.forall_mem_cons, FitsBuf, StringBuf.size,
        String.utf8ByteSize_append, hslash, hname, Option.some.injEq, forall_eq']
      constructor
      · intro h
        have hfile := h.2.2.1
        omega
      · intro h
        exact ⟨by omega, by omega, by omega, fun x hx => absurd hx List.not_mem_nil⟩

-- the longest file name of a pipe has 19 bytes
theorem pipeStrings_fit_iff (env : Option String) :
    (∀ x ∈ pipeStrings env, FitsBuf x) ↔ ∀ p, env = some p → p.utf8ByteSize ≤ 1003 := by
  cases env with
  | none =>
      exact iff_of_true (fun x hx => absurd hx List.not_mem_nil) fun p hp => absurd hp (by simp)
  | some p =>
      have hslash : "/".utf8ByteSize = 1 := by decide
      have hrequestClient : PipeName.requestClient.fileName.utf8ByteSize = 19 := by decide
      have hreplyClient : PipeName.replyClient.fileName.utf8ByteSize = 17 := by decide
      have hrequestServer : PipeName.requestServer.fileName.utf8ByteSize = 19 := by decide
      have hreplyServer : PipeName.replyServer.fileName.utf8ByteSize = 17 := by decide
      simp only [pipeStrings, List.forall_mem_cons, FitsBuf, StringBuf.size, PipePath.str,
        String.utf8ByteSize_append, hslash, hrequestClient, hreplyClient, hrequestServer,
        hreplyServer, Option.some.injEq, forall_eq']
      constructor
      · intro h
        have hfirst := h.1
        omega
      · intro h
        exact ⟨by omega, by omega, by omega, by omega, fun x hx => absurd hx List.not_mem_nil⟩

/-! ## Runs -/

/-- Every string of every access fits, and no access prints to a log that is not open. -/
def Unbroken (rounds : AccessRounds) : Prop := ∀ r ∈ rounds, ∀ x ∈ r.2.1, x.1.Sound

/-- The paths that an access finds are short enough for the buffers they are copied to. -/
structure PathsFit (t : SysTrace) : Prop where
  log : ∀ p, some p ∈ lookups .cxlRelayLogPath t → p.utf8ByteSize ≤ 998
  server : ∀ p, (lookups .cxlRelayServerPath t).head? = some (some p) → p.utf8ByteSize ≤ 1003

-- the first access finds CXL_RELAY_LOG_PATH set
def LogPathSetFirst (rounds : AccessRounds) : Prop :=
  ∀ r, rounds.head? = some r → lookups .cxlRelayLogPath r.2.1 ≠ [none]

/-- One access: sound exactly when its paths fit and the log was open before or is opened now; and
then the log is open for the next access. -/
theorem access_sound_iff {a : Access} {lib : DeviceLib} {t : SysTrace}
    {o : Option (AccessResult × DeviceLib)} (h : (accessBody a lib).Trace t o) :
    ((∀ x ∈ t, x.1.Sound) ↔
      (lib.logfp = true ∨ lookups .cxlRelayLogPath t ≠ [none]) ∧ PathsFit t) ∧
    (lib.logfp = true ∨ lookups .cxlRelayLogPath t ≠ [none] →
      ∀ x, o = some x → x.2.logfp = true) := by
  obtain ⟨env, hlog, hstrings, hhandles, hlogfp⟩ := access_parts h
  have hready : (lib.logfp || env.isSome) = true ↔
      lib.logfp = true ∨ lookups .cxlRelayLogPath t ≠ [none] := by
    rw [Bool.or_eq_true, hlog]
    cases env with
    | none => simp
    | some p => simp
  have hfits : (∀ x ∈ strings t, FitsBuf x) ↔ PathsFit t := by
    rw [hstrings, List.forall_mem_append, logStrings_fit_iff, pipeStrings_fit_iff]
    constructor
    · intro hboth
      refine ⟨fun p hp => ?_, fun p hp => hboth.2 p (Option.join_eq_some_iff.mpr hp)⟩
      rw [hlog] at hp
      exact hboth.1 p (List.mem_singleton.mp hp).symm
    · intro hpaths
      refine ⟨fun p hp => ?_, fun p hp => hpaths.server p (Option.join_eq_some_iff.mp hp)⟩
      apply hpaths.log p
      rw [hlog, hp]
      exact List.mem_singleton_self _
  refine ⟨?_, ?_⟩
  · rw [sound_iff, hfits, hhandles, hready, and_comm]
  · intro hopen x hx
    rw [hlogfp x hx]
    exact hready.mpr hopen

theorem session_unbroken_iff {lib : DeviceLib} {rounds : AccessRounds}
    (h : Session accessBody lib rounds) :
    Unbroken rounds ↔
      (lib.logfp = true ∨ LogPathSetFirst rounds) ∧ ∀ r ∈ rounds, PathsFit r.2.1 := by
  -- the first round decides whether the log is open in the others
  have hfirst : ∀ (lib : DeviceLib) (r : Access × SysTrace × Option AccessResult)
      (rounds : AccessRounds), lib.logfp = true ∨ LogPathSetFirst (r :: rounds) ↔
        lib.logfp = true ∨ lookups .cxlRelayLogPath r.2.1 ≠ [none] := by
    intro lib r rounds
    apply or_congr_right
    constructor
    · intro hset
      exact hset r rfl
    · intro hset r' hr'
      rw [← Option.some.inj hr']
      exact hset
  induction h with
  | nil lib =>
      refine iff_of_true (fun r hr => absurd hr List.not_mem_nil) ⟨Or.inr ?_, ?_⟩
      · exact fun r hr => absurd hr (by simp)
      · exact fun r hr => absurd hr List.not_mem_nil
  | @halt lib a t htr =>
      rw [Unbroken, List.forall_mem_singleton, List.forall_mem_singleton, hfirst]
      exact (access_sound_iff htr).1
  | @cons lib lib' a t res rounds htr _ ih =>
      obtain ⟨hsound, hnext⟩ := access_sound_iff htr
      have hcons : Unbroken ((a, t, some res) :: rounds) ↔
          (∀ x ∈ t, x.1.Sound) ∧ Unbroken rounds := List.forall_mem_cons
      rw [hcons, hsound, List.forall_mem_cons, hfirst, and_assoc]
      apply and_congr_right
      intro hready
      apply and_congr_right
      intro _
      exact ih.trans (and_iff_right (Or.inl (hnext hready (res, lib') rfl)))

/-- No access of a run is broken if and only if the first one finds CXL_RELAY_LOG_PATH set and all
values that are copied are short enough. -/
theorem access_unbroken_iff {rounds : AccessRounds} (h : Session accessBody .init rounds) :
    Unbroken rounds ↔ LogPathSetFirst rounds ∧ ∀ r ∈ rounds, PathsFit r.2.1 := by
  rw [session_unbroken_iff h]
  exact and_congr_left fun _ => or_iff_right (by decide)

-- an access whose every call succeeds, with `logPath` for CXL_RELAY_LOG_PATH
def answerLogPath (logPath : Option String) : (c : SysCall) → c.Ret
  | .getenv .cxlRelayLogPath => logPath
  | c => answerAll c

theorem access_unbroken_relay :
    ∃ rounds : AccessRounds, Session accessBody .init rounds ∧ rounds.length = 1 ∧
      Unbroken rounds := by
  have htr := Prog.trace_runWith (fun (_ : Unit) c => (answerLogPath (some "relay") c, ()))
    (accessBody plainAccess .init) ()
  have hrun : Session accessBody .init _ := .cons htr (.nil _)
  refine ⟨_, hrun, rfl, (access_unbroken_iff hrun).mpr ⟨?_, ?_⟩⟩
  · intro r hr
    rw [← Option.some.inj hr]
    decide
  · rw [List.forall_mem_singleton]
    refine ⟨fun p hp => ?_, fun p hp => ?_⟩
    · have hpath : some p ∈ [some "relay"] := hp
      rw [Option.some.inj (List.mem_singleton.mp hpath)]
      decide
    · have hpath : some (some "relay") = some (some p) := hp
      rw [← Option.some.inj (Option.some.inj hpath)]
      decide

/-- The first access with CXL_RELAY_LOG_PATH unset prints to NULL. -/
theorem access_broken_noLogPath :
    ∃ rounds : AccessRounds, Session accessBody .init rounds ∧ ¬Unbroken rounds := by
  have htr := Prog.trace_runWith (fun (_ : Unit) c => (answerLogPath none c, ()))
    (accessBody plainAccess .init) ()
  have hrun : Session accessBody .init _ := .cons htr (.nil _)
  refine ⟨_, hrun, fun hunbroken => ?_⟩
  -- the first message after the read
  have hprint : (⟨.fprintf false, ()⟩ : Σ c, SysCall.Ret c) ∈
      ((accessBody plainAccess .init).runWith
        (fun (_ : Unit) c => (answerLogPath none c, ())) ()).1 :=
    List.mem_of_getElem? (i := 13) rfl
  exact Bool.false_ne_true (hunbroken _ (List.mem_singleton_self _) _ hprint)

end SimConnect
