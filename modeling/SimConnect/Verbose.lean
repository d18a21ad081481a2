import SimConnect.AccessCalls
import SimConnect.RelayLoops
import SimConnect.Foundation.SilentCalls

/-!
# The verbose flag

A run with `verbose` 0 and a run with `verbose` nonzero, in the same surroundings.  The relay loops
print under the flag and do nothing else; in `simics_send_access_to_cosim` the `exit(0)` of a failed
enqueue and the writes to a log that may be NULL stand under it as well.
-/

open SimConnect.Foundation

namespace SimConnect

/-! ## The relay loops -/

/-- The same results and the same events apart from printing. -/
structure SameEffects {α : Type} (x y : α × List RelayEvent) : Prop where
  result : x.1 = y.1
  effects : effects x.2 = effects y.2

theorem relayLoop_sameEffects
    {round round' : RelayThread → Round → RelayThread × List RelayEvent}
    (hround : ∀ t r, SameEffects (round t r) (round' t r)) {onStop onStop' : List RelayEvent}
    (hstop : effects onStop = effects onStop') (t : RelayThread) (rounds : List Round) :
    SameEffects (relayLoop round onStop t rounds) (relayLoop round' onStop' t rounds) := by
  induction rounds generalizing t with
  | nil => exact ⟨rfl, rfl⟩
  | cons r rounds ih =>
      cases hr : r.Stops with
      | true =>
          rw [relayLoop, relayLoop, hr, if_pos rfl, if_pos rfl]
          exact ⟨rfl, hstop⟩
      | false =>
          have hnow := hround t r
          have hlater := ih (round t r).1
          rw [relayLoop_cons round onStop t hr, relayLoop_cons round' onStop' t hr]
          rw [hnow.result] at hlater ⊢
          refine ⟨hlater.result, ?_⟩
          rw [effects_append, effects_append, hnow.effects, hlater.effects]

section Rounds

variable (v v' : Bool) (t : RelayThread) (r : Round)

theorem requestRound_sameEffects (name : String)
    {forward : Bool → SimicsTransaction → Round → Bool × List RelayEvent}
    (hforward : ∀ p r, SameEffects (forward v p r) (forward v' p r)) :
    SameEffects (requestRound name forward v t r) (requestRound name forward v' t r) := by
  have h := hforward (r.read.store t.simicsData) r
  refine ⟨?_, ?_⟩
  · rw [requestRound_thread, requestRound_thread, h.result]
  · rw [requestRound_effects, requestRound_effects, h.effects]

theorem dumpForSystemVerilogFifoInPut_sameEffects (p : SimicsTransaction) :
    SameEffects (dumpForSystemVerilogFifoInPut v p r) (dumpForSystemVerilogFifoInPut v' p r) := by
  refine ⟨rfl, ?_⟩
  rw [dumpForSystemVerilogFifoInPut_effects, dumpForSystemVerilogFifoInPut_effects]

theorem replyRound_sameEffects (usenetwork : Bool) :
    SameEffects (replyRound usenetwork v t r) (replyRound usenetwork v' t r) := by
  refine ⟨?_, ?_⟩
  · cases usenetwork <;> rfl
  · rw [replyRound_effects, replyRound_effects]

end Rounds

/-- The relay loops do the same with the flag and without it. -/
theorem relay_loops_sameEffects (v v' : Bool) (t : RelayThread) (rounds : List Round) :
    SameEffects (hostRequestReadThread v t rounds) (hostRequestReadThread v' t rounds) ∧
      SameEffects (cxlServerFifoAccessThread v t rounds)
        (cxlServerFifoAccessThread v' t rounds) ∧
      ∀ usenetwork : Bool, SameEffects (cxlRtlToHostReplyThread usenetwork v t rounds)
        (cxlRtlToHostReplyThread usenetwork v' t rounds) := by
  refine ⟨?_, ?_, fun usenetwork => ?_⟩
  · apply relayLoop_sameEffects
    · exact fun t r => requestRound_sameEffects v v' t r _ fun _ _ => ⟨rfl, rfl⟩
    · rw [effects_say, effects_say]
  · apply relayLoop_sameEffects
    · exact fun t r => requestRound_sameEffects v v' t r _ fun p r =>
        dumpForSystemVerilogFifoInPut_sameEffects v v' r p
    · rfl
  · apply relayLoop_sameEffects
    · exact fun t r => replyRound_sameEffects v v' t r usenetwork
    · rw [effects_say, effects_say]

/-! ## Accesses in given surroundings -/

variable {α β W : Type}

/-- The files, pipes and environment variables of a process, with every outcome of its calls. -/
abbrev Outside (W : Type) := Surroundings SysCall SysCall.Ret SysCall.isIo W

def Outside.env (o : Outside W) (w : W) (name : EnvVar) : Option String :=
  (o.answer w (.getenv name)).1

-- fprintf to a FILE * that is NULL is undefined; `stops` says whether it ends the process
def nullPrint (stops : Bool) : SysCall → Bool
  | .fprintf fp => stops && !fp
  | _ => false

-- one access with the flag as given
def accessRun (o : Outside W) (stops verbose : Bool) (a : Access) (lib : DeviceLib) (w : W) :
    SysTrace × Option (AccessResult × DeviceLib) × W :=
  ((simicsSendAccessToCosim { a with verbose }).run lib).runIn o (nullPrint stops) w

/-- Accesses one after another: the opens, closes, writes and reads of each, and its result.  An
access that ends the process is the last. -/
def accessRounds (o : Outside W) (stops verbose : Bool) :
    List Access → DeviceLib → W → List (SysTrace × Option AccessResult)
  | [], _, _ => []
  | a :: as, lib, w =>
      let run := accessRun o stops verbose a lib w
      match run.2.1 with
      | none => [(ioCalls run.1, none)]
      | some (res, lib') =>
          (ioCalls run.1, some res) :: accessRounds o stops verbose as lib' run.2.2

/-- The condition on one access, `t` being its calls without the flag: the message about a log that
is not there is not reached before a pipe is opened, and the write does not fail. -/
structure Harmless (o : Outside W) (stops : Bool) (a : Access) (lib : DeviceLib) (w : W)
    (t : SysTrace) : Prop where
  log : stops = true → lib.logfp = false → a.timeEndFlag = false →
    o.env w .cxlRelayLogPath = none → o.env w .cxlRelayServerPath = none
  write : ∀ fd p r, (fd, p, r) ∈ writeCalls t → r ≠ -1

def AllHarmless (o : Outside W) (stops : Bool) : List Access → DeviceLib → W → Prop
  | [], _, _ => True
  | a :: as, lib, w =>
      let run := accessRun o stops false a lib w
      Harmless o stops a lib w run.1 ∧
        match run.2.1 with
        | none => True
        | some (_, lib') => AllHarmless o stops as lib' run.2.2

/-! ## Programs that differ under the flag -/

def WriteOk : (c : SysCall) → c.Ret → Prop
  | .write _ _, r => r ≠ (-1 : ℤ)
  | _, _ => True

theorem writeOk_of_not_isIo {c : SysCall} (hc : c.isIo = false) (r : c.Ret) : WriteOk c r := by
  cases c with
  | write fd p => cases hc
  | _ => trivial

theorem forall_writeOk_iff (t : SysTrace) :
    (∀ x ∈ t, WriteOk x.1 x.2) ↔ ∀ fd p r, (fd, p, r) ∈ writeCalls t → r ≠ -1 := by
  constructor
  · intro h fd p r hmem
    exact h _ (mem_writeCalls.mp hmem)
  · rintro h ⟨c, r⟩ hmem
    cases c with
    | write fd p => exact h fd p r (mem_writeCalls.mpr hmem)
    | _ => trivial

/-- From any variables whose log meets `R`. -/
def LibM.Alike (stops : Bool) (R : Bool → Prop) (m m' : LibM α) : Prop :=
  ∀ lib : DeviceLib, R lib.logfp →
    Prog.Alike SysCall.isIo (nullPrint stops) WriteOk (fun x => R x.2.logfp) (m.run lib)
      (m'.run lib)

-- where NULL ends the process, the log is open
def LogReady (stops : Bool) (logfp : Bool) : Prop := stops = true → logfp = true

namespace LibM.Alike

variable {stops : Bool} {R : Bool → Prop}

theorem bind {m m' : LibM α} {f f' : α → LibM β} (hm : LibM.Alike stops R m m')
    (hf : ∀ a, LibM.Alike stops R (f a) (f' a)) : LibM.Alike stops R (m >>= f) (m' >>= f') :=
  fun lib hlib => Prog.Alike.bind (hm lib hlib) fun x hx => hf x.1 x.2 hx

theorem pure (a : α) : LibM.Alike stops R (Pure.pure a) (Pure.pure a) := fun _ hlib => .ret hlib

theorem exit : LibM.Alike stops R (SimConnect.exit : LibM α) SimConnect.exit := fun _ _ => .halt

theorem get {f f' : DeviceLib → LibM β}
    (hf : ∀ lib, R lib.logfp → LibM.Alike stops R (f lib) (f' lib)) :
    LibM.Alike stops R (MonadState.get >>= f) (MonadState.get >>= f') :=
  fun lib hlib => hf lib hlib lib hlib

-- an assignment that leaves logfp alone
theorem modify {g : DeviceLib → DeviceLib} (hg : ∀ lib, (g lib).logfp = lib.logfp)
    {f f' : PUnit → LibM β} (hf : LibM.Alike stops R (f ⟨⟩) (f' ⟨⟩)) :
    LibM.Alike stops R (modify g >>= f) (modify g >>= f') := by
  intro lib hlib
  apply hf (g lib)
  rw [hg]
  exact hlib

-- a call of both, other than a write
theorem sys {c : SysCall} (hc : ∀ r, WriteOk c r) :
    LibM.Alike stops R (SimConnect.sys c) (SimConnect.sys c) :=
  fun _ hlib => .both (fun _ _ => .ret hlib) fun r hr => absurd (hc r) hr

theorem logPrint : LibM.Alike stops R SimConnect.logPrint SimConnect.logPrint :=
  .get fun _ _ => .sys fun _ => trivial

theorem logFlush : LibM.Alike stops R SimConnect.logFlush SimConnect.logFlush :=
  .get fun _ _ => .sys fun _ => trivial

theorem simicsPrintFifoPktDataAndLog : LibM.Alike stops R
    SimConnect.simicsPrintFifoPktDataAndLog SimConnect.simicsPrintFifoPktDataAndLog := by
  refine .bind (.sys fun _ => trivial) fun localtime => ?_
  cases localtime with
  | false => exact .pure _
  | true =>
      refine .get fun lib _ => ?_
      cases lib.logfp with
      | false => exact .pure _
      | true => exact .bind .logPrint fun _ => .bind .logFlush fun _ => .pure _

theorem printTimestamp :
    LibM.Alike stops R SimConnect.printTimestamp SimConnect.printTimestamp := by
  refine .bind (.sys fun _ => trivial) fun localtime => ?_
  cases localtime with
  | false => exact .pure _
  | true => exact .logPrint

theorem endTiming (spd rd : SimicsTransaction) :
    LibM.Alike stops R (SimConnect.endTiming spd rd) (SimConnect.endTiming spd rd) := by
  apply LibM.Alike.modify
  · exact fun _ => rfl
  · exact .bind .printTimestamp fun _ => .bind .printTimestamp fun _ => .bind .logPrint fun _ =>
      .pure _

theorem openFailed (spd rd : SimicsTransaction) :
    LibM.Alike stops R (SimConnect.openFailed spd rd) (SimConnect.openFailed spd rd) := by
  refine .bind (.sys fun _ => trivial) fun env => ?_
  cases env with
  | none =>
      exact .bind .logPrint fun _ => .bind .logPrint fun _ => .bind .logFlush fun _ => .pure _
  | some p => exact .bind .logPrint fun _ => .bind .logFlush fun _ => .pure _

theorem openClientPipe :
    LibM.Alike stops R SimConnect.openClientPipe SimConnect.openClientPipe := by
  refine .bind (.sys fun _ => trivial) fun env => ?_
  cases env with
  | none => exact .pure _
  | some p =>
      refine .bind (.sys fun _ => trivial) fun _ => .bind (.sys fun _ => trivial) fun _ =>
        .bind (.sys fun _ => trivial) fun _ => .bind (.sys fun _ => trivial) fun _ => ?_
      refine .bind (.sys fun _ => trivial) fun fd => .modify (by exact fun _ => rfl) ?_
      by_cases hfd : fd < 0
      · rw [if_pos hfd]
        exact .pure _
      · rw [if_neg hfd]
        refine .bind (.sys fun _ => trivial) fun fd' => .modify (by exact fun _ => rfl) ?_
        by_cases hfd' : fd' < 0
        · rw [if_pos hfd']
          exact .bind (.sys fun _ => trivial) fun _ => .pure _
        · rw [if_neg hfd']
          exact .pure _

end LibM.Alike

section Flag

variable {stops : Bool} {spd rd : SimicsTransaction} {lib : DeviceLib}

theorem silent_fprintf (hlib : LogReady stops lib.logfp) :
    Prog.Silent SysCall.isIo (nullPrint stops) (.fprintf lib.logfp) := by
  refine ⟨rfl, ?_⟩
  change (stops && !lib.logfp) = false
  cases stops with
  | false => rfl
  | true =>
      rw [hlib rfl]
      rfl

-- a message that only the second program writes
theorem pure_alike_logPrint :
    LibM.Alike stops (LogReady stops) (pure ()) logPrint :=
  fun _ hlib => .right (silent_fprintf hlib) fun _ => .ret hlib

theorem pure_alike_logFlush :
    LibM.Alike stops (LogReady stops) (pure ()) logFlush :=
  fun _ hlib => .right ⟨rfl, rfl⟩ fun _ => .ret hlib

theorem logVerbose_alike :
    LibM.Alike stops (LogReady stops) (logVerbose false) (logVerbose true) :=
  pure_alike_logPrint.bind fun _ => pure_alike_logFlush

theorem reportReply_alike :
    LibM.Alike stops (LogReady stops) (reportReply false) (reportReply true) := by
  have hentry : LibM.Alike stops (LogReady stops)
      (simicsPrintFifoPktDataAndLog >>= fun _ => do logPrint; logFlush)
      (simicsPrintFifoPktDataAndLog >>= fun _ => do
        logPrint; logFlush; logFlush; logPrint; logFlush) := by
    refine .bind .simicsPrintFifoPktDataAndLog fun _ => .bind .logPrint fun _ => ?_
    have hend : LibM.Alike stops (LogReady stops) (do logFlush; pure ())
        (do logFlush; logFlush; logPrint; logFlush) :=
      .bind .logFlush fun _ => pure_alike_logFlush.bind fun _ => pure_alike_logPrint.bind fun _ =>
        pure_alike_logFlush
    exact hend
  exact logVerbose_alike.bind fun _ => pure_alike_logPrint.bind fun _ => hentry

theorem awaitReply_alike :
    LibM.Alike stops (LogReady stops) (awaitReply spd rd false) (awaitReply spd rd true) := by
  refine logVerbose_alike.bind fun _ => ?_
  have hread : LibM.Alike stops (LogReady stops) (dequeReplyRequestClient rd)
      (dequeReplyRequestClient rd) :=
    .get fun _ _ => .bind (.sys fun _ => trivial) fun _ => .pure _
  refine hread.bind fun reply => reportReply_alike.bind fun _ => ?_
  exact .modify (by exact fun _ => rfl) (.pure _)

theorem reportEnqueue_alike (p : SimicsTransaction) :
    LibM.Alike stops (LogReady stops) (reportEnqueue false (some p))
      (reportEnqueue true (some p)) :=
  logVerbose_alike.bind fun _ => .bind .simicsPrintFifoPktDataAndLog fun _ => .pure _

/-- After a failed enqueue the one goes on to the dequeue and the other ends. -/
theorem failedEnqueue_differs (hlib : LogReady stops lib.logfp) :
    Prog.Speaks SysCall.isIo (nullPrint stops)
        ((reportEnqueue false none >>= fun _ => awaitReply spd rd false).run lib) ∧
      Prog.Mute SysCall.isIo (nullPrint stops)
        ((reportEnqueue true none >>= fun _ => awaitReply spd rd true).run lib) := by
  constructor
  · exact Prog.Speaks.visible (c := SysCall.read lib.replyClientPipe) rfl rfl
  · have hexit : Prog.Mute SysCall.isIo (nullPrint stops) ((reportEnqueue true none).run lib) :=
      .later (silent_fprintf hlib) fun _ => .later ⟨rfl, rfl⟩ fun _ => .halt
    exact hexit.bind

theorem exchange_alike :
    LibM.Alike stops (LogReady stops) (exchange spd rd false) (exchange spd rd true) := by
  intro lib hlib
  refine Prog.Alike.both (c := SysCall.write lib.requestClientPipe spd) (fun r hr => ?_)
    fun r hr => ?_
  · have hsome : simicsEnqueRequestClientTlp r spd = some spd := if_neg hr
    change Prog.Alike _ _ _ _
      ((reportEnqueue false (simicsEnqueRequestClientTlp r spd) >>= fun _ =>
        awaitReply spd rd false).run lib)
      ((reportEnqueue true (simicsEnqueRequestClientTlp r spd) >>= fun _ =>
        awaitReply spd rd true).run lib)
    rw [hsome]
    exact (reportEnqueue_alike spd).bind (fun _ => awaitReply_alike) lib hlib
  · have hnone : simicsEnqueRequestClientTlp r spd = none := if_pos (Decidable.not_not.mp hr)
    change Prog.Speaks _ _ ((reportEnqueue false (simicsEnqueRequestClientTlp r spd) >>= fun _ =>
        awaitReply spd rd false).run lib) ∧
      Prog.Mute _ _ ((reportEnqueue true (simicsEnqueRequestClientTlp r spd) >>= fun _ =>
        awaitReply spd rd true).run lib)
    rw [hnone]
    exact failedEnqueue_differs hlib

theorem accessRest_alike (a : Access) :
    LibM.Alike stops (LogReady stops) (accessRest { a with verbose := false } spd)
      (accessRest { a with verbose := true } spd) := by
  unfold accessRest
  cases a.timeEndFlag with
  | true => exact .endTiming spd a.rd
  | false =>
      refine logVerbose_alike.bind fun _ => logVerbose_alike.bind fun _ => ?_
      refine LibM.Alike.openClientPipe.bind fun ret => ?_
      by_cases hret : ret < 0
      · rw [if_pos hret, if_pos hret]
        exact .openFailed spd a.rd
      · rw [if_neg hret, if_neg hret]
        exact exchange_alike

/-! ## The whole access -/

-- open_relay_log once it has the path
def relayLogAt : Option String → LibM ℤ
  | none => do
      sys (.strbuf .cxlRelayLogPath "./")
      return -1
  | some p => do
      sys (.strbuf .cxlRelayLogPath p)
      sys (.strbuf .cxlRelayLogPath (p ++ "/"))
      sys (.strbuf .logfile (p ++ "/" ++ "simics_cxl_relay_log.txt"))
      if !(← get).logfp then
        let fp ← sys (.fopen (p ++ "/" ++ "simics_cxl_relay_log.txt"))
        modify fun lib => { lib with logfp := fp }
      if !(← get).logfp then
        exit
      else
        return 0

def accessFrom (a : Access) (spd : SimicsTransaction) (env : Option String) :
    LibM AccessResult := do
  let _ ← relayLogAt env
  if a.timeStartFlag && !(← get).timeStarted then
    modify fun lib => { lib with timeStarted := true }
  accessRest a spd

theorem access_run (a : Access) (lib : DeviceLib) :
    (simicsSendAccessToCosim a).run lib = .call (.getenv .cxlRelayLogPath) fun env =>
      (accessFrom a { a.spd with packetNumber := lib.simicsPacketNo } env).run
        { lib with simicsPacketNo := lib.simicsPacketNo + 1 } := rfl

theorem relayLogAt_alike {env : Option String} (h : LogReady stops lib.logfp ∨ env ≠ none) :
    Prog.Alike SysCall.isIo (nullPrint stops) WriteOk (fun x => LogReady stops x.2.logfp)
      ((relayLogAt env).run lib) ((relayLogAt env).run lib) := by
  cases env with
  | none =>
      have hlib : LogReady stops lib.logfp := h.resolve_right fun hne => hne rfl
      have hpath : LibM.Alike stops (LogReady stops) (relayLogAt none) (relayLogAt none) :=
        .bind (.sys fun _ => trivial) fun _ => .pure _
      exact hpath lib hlib
  | some p =>
      -- three strings, and the log is open or the process ends
      refine .both (fun _ _ => ?_) fun r hr => absurd trivial hr
      refine .both (fun _ _ => ?_) fun r hr => absurd trivial hr
      refine .both (fun _ _ => ?_) fun r hr => absurd trivial hr
      obtain ⟨no, started, num, logfp, fd, fd'⟩ := lib
      cases logfp with
      | true => exact .ret fun _ => rfl
      | false =>
          refine Prog.Alike.both (c := SysCall.fopen (p ++ "/" ++ "simics_cxl_relay_log.txt"))
            (fun fp _ => ?_) fun r hr => absurd trivial hr
          cases fp with
          | true => exact .ret fun _ => rfl
          | false => exact .halt

theorem accessFrom_alike {R : Bool → Prop} (a : Access) {env : Option String}
    (hlog : Prog.Alike SysCall.isIo (nullPrint stops) WriteOk (fun x => R x.2.logfp)
      ((relayLogAt env).run lib) ((relayLogAt env).run lib))
    (hrest : LibM.Alike stops R (accessRest { a with verbose := false } spd)
      (accessRest { a with verbose := true } spd)) :
    Prog.Alike SysCall.isIo (nullPrint stops) WriteOk (fun x => R x.2.logfp)
      ((accessFrom { a with verbose := false } spd env).run lib)
      ((accessFrom { a with verbose := true } spd env).run lib) := by
  have hstart : LibM.Alike stops R
      (do
        if a.timeStartFlag && !(← get).timeStarted then
          modify fun lib => { lib with timeStarted := true }
        accessRest { a with verbose := false } spd)
      (do
        if a.timeStartFlag && !(← get).timeStarted then
          modify fun lib => { lib with timeStarted := true }
        accessRest { a with verbose := true } spd) := by
    refine .get fun lib _ => ?_
    by_cases hflag : (a.timeStartFlag && !lib.timeStarted) = true
    · rw [if_pos hflag, if_pos hflag]
      exact .modify (by exact fun _ => rfl) hrest
    · rw [if_neg hflag, if_neg hflag]
      exact hrest
  exact hlog.bind fun x hx => hstart x.2 hx

-- without a path for the log
theorem accessFrom_none (a : Access) (spd : SimicsTransaction) (lib : DeviceLib) :
    ∃ lib' : DeviceLib, lib'.logfp = lib.logfp ∧ ∀ v : Bool,
      (accessFrom { a with verbose := v } spd none).run lib =
        .call (.strbuf .cxlRelayLogPath "./") fun _ =>
          (accessRest { a with verbose := v } spd).run lib' := by
  by_cases hflag : (a.timeStartFlag && !lib.timeStarted) = true
  · refine ⟨{ lib with timeStarted := true }, rfl, fun v => ?_⟩
    change Prog.call _ (fun _ => (if (a.timeStartFlag && !lib.timeStarted) = true then _ else _ :
      LibM AccessResult).run lib) = _
    rw [if_pos hflag]
    rfl
  · refine ⟨lib, rfl, fun v => ?_⟩
    change Prog.call _ (fun _ => (if (a.timeStartFlag && !lib.timeStarted) = true then _ else _ :
      LibM AccessResult).run lib) = _
    rw [if_neg hflag]

/-- Where NULL ends the process and there is no log: with the flag the access ends at its first
message, and without it the access goes on to the pipes if it finds their path. -/
theorem accessRest_noLog (a : Access) (spd : SimicsTransaction) (hend : a.timeEndFlag = false)
    (hstops : stops = true) (hlib : lib.logfp = false) :
    Prog.Mute SysCall.isIo (nullPrint stops)
        ((accessRest { a with verbose := true } spd).run lib) ∧
      ∃ k : Option String → Prog SysCall SysCall.Ret (AccessResult × DeviceLib),
        (accessRest { a with verbose := false } spd).run lib =
          .call (.getenv .cxlRelayServerPath) k ∧
        Prog.Mute SysCall.isIo (nullPrint stops) (k none) ∧
        ∀ p, Prog.Speaks SysCall.isIo (nullPrint stops) (k (some p)) := by
  have hnull : nullPrint stops (.fprintf lib.logfp) = true := by
    rw [hstops, hlib]
    rfl
  obtain ⟨spd', rd, verbose, timeStartFlag, timeEndFlag⟩ := a
  subst hend
  refine ⟨.fatal (c := SysCall.fprintf lib.logfp) hnull, _, rfl, ?_, fun p => ?_⟩
  · -- the message about the pipes
    refine Prog.Mute.later (c := SysCall.getenv .cxlRelayServerPath) ⟨rfl, rfl⟩ fun env => ?_
    cases env with
    | none => exact .fatal (c := SysCall.fprintf lib.logfp) hnull
    | some p => exact .fatal (c := SysCall.fprintf lib.logfp) hnull
  · refine .later ⟨rfl, rfl⟩ fun _ => .later ⟨rfl, rfl⟩ fun _ => .later ⟨rfl, rfl⟩ fun _ =>
      .later ⟨rfl, rfl⟩ fun _ => ?_
    exact .visible (c := SysCall.open ⟨p, .requestClient⟩) rfl rfl

end Flag

/-! ## Runs with the flag and without it -/

section Runs

variable {o : Outside W} {stops : Bool} {a : Access} {lib : DeviceLib} {w : W}

-- the program of an access after its first getenv
def Access.after (o : Outside W) (a : Access) (lib : DeviceLib) (w : W) (verbose : Bool) :
    Prog SysCall SysCall.Ret (AccessResult × DeviceLib) :=
  (accessFrom { a with verbose } { a.spd with packetNumber := lib.simicsPacketNo }
    (o.env w .cxlRelayLogPath)).run { lib with simicsPacketNo := lib.simicsPacketNo + 1 }

theorem accessRun_eq (verbose : Bool) :
    accessRun o stops verbose a lib w =
      (⟨.getenv .cxlRelayLogPath, o.env w .cxlRelayLogPath⟩ ::
        ((a.after o lib w verbose).runIn o (nullPrint stops) w).1,
        ((a.after o lib w verbose).runIn o (nullPrint stops) w).2) := by
  rw [accessRun, access_run, Prog.runIn_call o w rfl, o.unseen w _ rfl]
  rfl

theorem after_alike
    (h : LogReady stops lib.logfp ∨ o.env w .cxlRelayLogPath ≠ none ∨ a.timeEndFlag = true) :
    ∃ Q, Prog.Alike SysCall.isIo (nullPrint stops) WriteOk Q (a.after o lib w false)
      (a.after o lib w true) := by
  by_cases hready : LogReady stops lib.logfp ∨ o.env w .cxlRelayLogPath ≠ none
  · exact ⟨_, accessFrom_alike a (relayLogAt_alike hready) (accessRest_alike a)⟩
  · -- without a log the two programs are the same after all
    have hend : a.timeEndFlag = true := by
      rcases h with hlib | hpath | hend
      · exact absurd (Or.inl hlib) hready
      · exact absurd (Or.inr hpath) hready
      · exact hend
    have hnone : o.env w .cxlRelayLogPath = none := Decidable.not_not.mp (not_or.mp hready).2
    have hpath : LibM.Alike stops (fun _ => True) (relayLogAt none) (relayLogAt none) :=
      .bind (.sys fun _ => trivial) fun _ => .pure _
    have hrest : LibM.Alike stops (fun _ => True)
        (accessRest { a with verbose := false } { a.spd with packetNumber := lib.simicsPacketNo })
        (accessRest { a with verbose := true }
          { a.spd with packetNumber := lib.simicsPacketNo }) := by
      unfold accessRest
      rw [hend]
      exact .endTiming _ _
    unfold Access.after
    rw [hnone]
    exact ⟨_, accessFrom_alike a (hpath _ trivial) hrest⟩

theorem after_noLog (hstops : stops = true) (hlib : lib.logfp = false)
    (hpath : o.env w .cxlRelayLogPath = none) (hend : a.timeEndFlag = false) :
    (ioCalls ((a.after o lib w true).runIn o (nullPrint stops) w).1 = [] ∧
      ((a.after o lib w true).runIn o (nullPrint stops) w).2 = (none, w)) ∧
    (o.env w .cxlRelayServerPath = none →
      ioCalls ((a.after o lib w false).runIn o (nullPrint stops) w).1 = [] ∧
        ((a.after o lib w false).runIn o (nullPrint stops) w).2 = (none, w)) ∧
    (o.env w .cxlRelayServerPath ≠ none →
      ioCalls ((a.after o lib w false).runIn o (nullPrint stops) w).1 ≠ []) := by
  unfold Access.after
  rw [hpath]
  obtain ⟨lib', hlib', hafter⟩ := accessFrom_none a
    { a.spd with packetNumber := lib.simicsPacketNo }
    { lib with simicsPacketNo := lib.simicsPacketNo + 1 }
  obtain ⟨hmute, k, hrest, hnone, hsome⟩ := accessRest_noLog a
    { a.spd with packetNumber := lib.simicsPacketNo } hend hstops (hlib'.trans hlib)
  rw [hafter, hafter, hrest]
  -- without the flag, what follows the second getenv
  have hquiet : ∀ env, o.env w .cxlRelayServerPath = env →
      ioCalls ((Prog.call (SysCall.strbuf .cxlRelayLogPath "./") fun _ =>
          Prog.call (.getenv .cxlRelayServerPath) k).runIn o (nullPrint stops) w).1 =
        ioCalls ((k env).runIn o (nullPrint stops) w).1 ∧
      ((Prog.call (SysCall.strbuf .cxlRelayLogPath "./") fun _ =>
          Prog.call (.getenv .cxlRelayServerPath) k).runIn o (nullPrint stops) w).2 =
        ((k env).runIn o (nullPrint stops) w).2 := by
    intro env henv
    have hstrbuf : Prog.Silent SysCall.isIo (nullPrint stops) (.strbuf .cxlRelayLogPath "./") :=
      ⟨rfl, rfl⟩
    have hgetenv : Prog.Silent SysCall.isIo (nullPrint stops) (.getenv .cxlRelayServerPath) :=
      ⟨rfl, rfl⟩
    obtain ⟨hseen, hend⟩ := Prog.seen_runIn_silent o hstrbuf
      (k := fun _ => Prog.call (SysCall.getenv .cxlRelayServerPath) k) w
    obtain ⟨hseen', hend'⟩ := Prog.seen_runIn_silent o hgetenv (k := k) w
    rw [← henv]
    exact ⟨hseen.trans hseen', hend.trans hend'⟩
  refine ⟨?_, fun hserver => ?_, fun hserver => ?_⟩
  · have hend : Prog.Mute SysCall.isIo (nullPrint stops)
        (Prog.call (SysCall.strbuf .cxlRelayLogPath "./") fun _ =>
          (accessRest { a with verbose := true }
            { a.spd with packetNumber := lib.simicsPacketNo }).run lib') :=
      .later ⟨rfl, rfl⟩ fun _ => hmute
    exact hend.seen_nil o w
  · obtain ⟨hseen, hend⟩ := hquiet none hserver
    rw [hseen, hend]
    exact hnone.seen_nil o w
  · obtain ⟨p, hp⟩ := Option.ne_none_iff_exists'.mp hserver
    rw [(hquiet (some p) hp).1]
    exact (hsome p).seen_ne_nil o w

-- the calls after the first are those that count
theorem ioCalls_accessRun (verbose : Bool) :
    ioCalls (accessRun o stops verbose a lib w).1 =
      ioCalls ((a.after o lib w verbose).runIn o (nullPrint stops) w).1 := by
  rw [accessRun_eq]
  exact ioCalls_cons_quiet rfl _ _

/-- The two runs of an access show the same calls exactly when the access is harmless, and then they
have the same result. -/
theorem access_harmless_iff (o : Outside W) (stops : Bool) (a : Access) (lib : DeviceLib) (w : W) :
    (ioCalls (accessRun o stops false a lib w).1 = ioCalls (accessRun o stops true a lib w).1 ↔
      Harmless o stops a lib w (accessRun o stops false a lib w).1) ∧
    (Harmless o stops a lib w (accessRun o stops false a lib w).1 →
      (accessRun o stops false a lib w).2 = (accessRun o stops true a lib w).2) := by
  have hwrite : (∀ fd p r, (fd, p, r) ∈ writeCalls (accessRun o stops false a lib w).1 → r ≠ -1) ↔
      ∀ x ∈ ((a.after o lib w false).runIn o (nullPrint stops) w).1, WriteOk x.1 x.2 := by
    rw [← forall_writeOk_iff, accessRun_eq, List.forall_mem_cons]
    exact and_iff_right trivial
  rw [ioCalls_accessRun, ioCalls_accessRun, accessRun_eq true]
  by_cases hlog : LogReady stops lib.logfp ∨ o.env w .cxlRelayLogPath ≠ none ∨ a.timeEndFlag = true
  · obtain ⟨Q, halike⟩ := after_alike hlog
    have hsilent : ∀ c r, Prog.Silent SysCall.isIo (nullPrint stops) c → WriteOk c r :=
      fun c r hc => writeOk_of_not_isIo hc.1 r
    refine ⟨⟨fun hseen => ⟨?_, hwrite.mpr (halike.ok_of_seen o hsilent w hseen)⟩, fun h => ?_⟩,
      fun h => ?_⟩
    · intro hstops hlib hend hpath
      rcases hlog with hready | hpath' | hend'
      · rw [hready hstops] at hlib
        cases hlib
      · exact absurd hpath hpath'
      · rw [hend'] at hend
        cases hend
    · exact (halike.runIn o w (hwrite.mp h.write)).1
    · rw [accessRun_eq]
      exact (halike.runIn o w (hwrite.mp h.write)).2.1
  · have hstops : stops = true ∧ lib.logfp = false := by
      have hnot := (not_or.mp hlog).1
      unfold LogReady at hnot
      revert hnot
      cases stops <;> cases lib.logfp <;> decide
    have hpath := Decidable.not_not.mp (not_or.mp (not_or.mp hlog).2).1
    have hend := Bool.eq_false_of_not_eq_true (not_or.mp (not_or.mp hlog).2).2
    obtain ⟨⟨hloud, hloudEnd⟩, hquiet, hspeaks⟩ :=
      after_noLog (o := o) (w := w) hstops.1 hstops.2 hpath hend
    rw [hloud, hloudEnd]
    by_cases hserver : o.env w .cxlRelayServerPath = none
    · obtain ⟨hseen, hres⟩ := hquiet hserver
      rw [hseen]
      refine ⟨iff_of_true rfl ⟨fun _ _ _ _ => hserver, hwrite.mpr fun x hx => ?_⟩, fun _ => ?_⟩
      · -- none of its calls can be seen, so none is a write
        apply writeOk_of_not_isIo
        have hunseen := List.filter_eq_nil_iff.mp hseen x hx
        exact Bool.eq_false_of_not_eq_true hunseen
      · rw [accessRun_eq]
        exact hres
    · have hnot : ¬ Harmless o stops a lib w (accessRun o stops false a lib w).1 :=
        fun h => hserver (h.log hstops.1 hstops.2 hend hpath)
      exact ⟨iff_of_false (hspeaks hserver) hnot, fun h => absurd h hnot⟩

theorem accessRounds_iff (as : List Access) (lib : DeviceLib) (w : W) :
    accessRounds o stops false as lib w = accessRounds o stops true as lib w ↔
      AllHarmless o stops as lib w := by
  induction as generalizing lib w with
  | nil => exact iff_of_true rfl trivial
  | cons a as ih =>
      obtain ⟨hiff, hresult⟩ := access_harmless_iff o stops a lib w
      rw [accessRounds, accessRounds, AllHarmless]
      by_cases hharmless : Harmless o stops a lib w (accessRun o stops false a lib w).1
      · rw [hiff.mpr hharmless, ← hresult hharmless, and_iff_right hharmless]
        cases (accessRun o stops false a lib w).2.1 with
        | none => exact iff_of_true rfl trivial
        | some x =>
            rw [List.cons.injEq, and_iff_right rfl]
            exact ih x.2 _
      · -- the first round tells
        refine iff_of_false (fun h => hharmless (hiff.mp ?_)) fun h => hharmless h.1
        cases hquiet : (accessRun o stops false a lib w).2.1
        all_goals
          cases hloud : (accessRun o stops true a lib w).2.1
          all_goals
            rw [hquiet, hloud] at h
            exact congrArg Prod.fst (List.cons.inj h).1

end Runs

/-- The flag changes only what is printed exactly when every access of the run without it is
harmless; the relay loops never depend on it. -/
theorem verbose_only_prints_iff (o : Outside W) (stops : Bool) (as : List Access)
    (lib : DeviceLib) (w : W) (t : RelayThread) (rounds : List Round) :
    (accessRounds o stops false as lib w = accessRounds o stops true as lib w ∧
      SameEffects (hostRequestReadThread false t rounds) (hostRequestReadThread true t rounds) ∧
      SameEffects (cxlServerFifoAccessThread false t rounds)
        (cxlServerFifoAccessThread true t rounds) ∧
      ∀ usenetwork : Bool, SameEffects (cxlRtlToHostReplyThread usenetwork false t rounds)
        (cxlRtlToHostReplyThread usenetwork true t rounds)) ↔
      AllHarmless o stops as lib w := by
  rw [accessRounds_iff]
  exact and_iff_left (relay_loops_sameEffects false true t rounds)

-- both paths are set, the pipes open, and nothing can be written to them
def brokenPipe : Outside Unit where
  answer := fun _ c => match c with
    | .getenv _ => (some "/tmp", ())
    | .fopen _ | .localtime => (true, ())
    | .open ⟨_, .requestClient⟩ => (3, ())
    | .open _ => (4, ())
    | .write _ _ => (-1, ())
    | .read _ => (.fail, ())
    | .strbuf _ _ | .fprintf _ | .fflush _ | .close _ => ((), ())
  unseen := fun _ _ _ => rfl

/-- With the flag the process exits, without it the access dequeues and returns. -/
theorem verbose_exits_on_failed_enqueue :
    ¬ ∀ (W : Type) (o : Outside W) (stops : Bool) (as : List Access) (lib : DeviceLib) (w : W)
      (t : RelayThread) (rounds : List Round),
      accessRounds o stops false as lib w = accessRounds o stops true as lib w ∧
      SameEffects (hostRequestReadThread false t rounds) (hostRequestReadThread true t rounds) ∧
      SameEffects (cxlServerFifoAccessThread false t rounds)
        (cxlServerFifoAccessThread true t rounds) ∧
      ∀ usenetwork : Bool, SameEffects (cxlRtlToHostReplyThread usenetwork false t rounds)
        (cxlRtlToHostReplyThread usenetwork true t rounds) := by
  intro h
  have hrounds := (h Unit brokenPipe false
    [{ spd := .zero, rd := .zero, verbose := false, timeStartFlag := false, timeEndFlag := false }]
    .init () ⟨.zero, 0, 0⟩ []).1
  have hends := congrArg (List.map fun x => x.2.isSome) hrounds
  exact absurd hends (by decide)

end SimConnect
