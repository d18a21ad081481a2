import SimConnect.PipeCreation
import SimConnect.Foundation.Processes

/-!
# The start of the relay server and the relay client

Each program creates the pipes of one pair and then opens what it needs, as
`cxl_tlp_relay_server.c` and `cxl_tlp_relay_client.c` do it in `main`, in the initialisers of
pcie_tlp_pkt_lib.c and, for a server that does not work over IP, in a thread.  Any number of them
are started and stopped in one directory.
-/

open SimConnect.Foundation

namespace SimConnect.NamedPipe

/-! ## The programs -/

/-- The environment variables of a start besides CXL_RELAY_SERVER_PATH. -/
structure RelayEnv where
  logPath : Option String
  serverIp : Option String
  serverPort : Option String
  overIp : Option String

/-- What a start finds: the variables, the results of the calls on the pipes, and whether `fopen` of
the log and `pthread_create` succeed. -/
structure RelayStart where
  env : RelayEnv
  os : Outcomes
  logOpens : Bool
  threadStarts : Bool

-- open_server_pipe and open_client_pipe
inductive OpenFn
  | server
  | client
  deriving DecidableEq

def OpenFn.pipes : OpenFn → List PipeName
  | server => [.requestServer, .replyServer]
  | client => [.requestClient, .replyClient]

def OpenFn.run : OpenFn → Outcomes → PipeVars → PipeRun
  | server => openServerPipe
  | client => openClientPipe

/-- `enter` is the call of one of the opening functions, and `spawnFifo` the start of
`cxl_server_fifo_access_thread`. -/
inductive RelayEvent
  | call (c : PipeCall)
  | enter (fn : OpenFn)
  | spawnFifo

def callEvents (run : PipeRun) : List RelayEvent := run.calls.map .call

def openEvents (fn : OpenFn) (os : Outcomes) (vars : PipeVars) : List RelayEvent :=
  .enter fn :: callEvents (fn.run os vars)

-- the result of the creating function is not looked at
def initCxlRelayLib (init : Outcomes → PipeVars → PipeRun) (start : RelayStart) (vars : PipeVars) :
    PipeRun :=
  match start.env.logPath with
  | none => { ret := -1, vars, calls := [] }
  | some _ => { init start.os vars with ret := 0 }

def initCxlRelayServerLib := initCxlRelayLib initServerFifo

def initCxlRelayClientLib := initCxlRelayLib initClientFifo

-- up to the loop; a failed open_client_pipe is the end of the process
def cxlServerFifoAccessThread (start : RelayStart) (vars : PipeVars) : List RelayEvent :=
  openEvents .client start.os vars

-- cxl_tcp_server_thread has nothing to do with the pipes
def rtlSideTcpServerInit (start : RelayStart) (usenetwork : Bool) (vars : PipeVars) :
    List RelayEvent :=
  if usenetwork then []
  else if start.threadStarts then .spawnFifo :: cxlServerFifoAccessThread start vars
  else []

def serverMain (start : RelayStart) : List RelayEvent :=
  let lib := initCxlRelayServerLib start .init
  callEvents lib ++
    match start.env.serverPort, start.env.overIp with
    | some _, some overIp =>
        let usenetwork := overIp == "yes"
        if !start.logOpens then []
        else
          let opened := openServerPipe start.os lib.vars
          openEvents .server start.os lib.vars ++
            if opened.ret < 0 then [] else rtlSideTcpServerInit start usenetwork opened.vars
    | _, _ => []

def clientMain (start : RelayStart) : List RelayEvent :=
  match start.env.serverIp, start.env.serverPort, start.env.overIp with
  | some _, some _, some overIp =>
      if !(overIp == "yes") then []
      else if !start.logOpens then []
      else
        let lib := initCxlRelayClientLib start .init
        callEvents lib ++ openEvents .client start.os lib.vars
  | _, _, _ => []

/-! ## Starts in one directory -/

/-- Every variable is set, and CXL_RELAY_SERVER_PATH is `dir`. -/
structure RelayStart.AllSet (start : RelayStart) (dir : String) : Prop where
  logPath : start.env.logPath.isSome = true
  serverIp : start.env.serverIp.isSome = true
  serverPort : start.env.serverPort.isSome = true
  overIp : start.env.overIp.isSome = true
  serverPath : start.os.serverPath = some dir

inductive RelayProgram
  | server
  | client

structure StartIn (dir : String) where
  program : RelayProgram
  start : RelayStart
  allSet : start.AllSet dir

def StartIn.events {dir : String} (s : StartIn dir) : List RelayEvent :=
  match s.program with
  | .server => serverMain s.start
  | .client => clientMain s.start

/-- `entered` are the calls of the opening functions with whether all their pipes were there,
`opened` the single opens with whether the pipe was. -/
structure RelayFiles where
  files : PipeFiles
  entered : List (OpenFn × Bool)
  opened : List (PipePath × Bool)

def RelayFiles.start (files : PipeFiles) : RelayFiles where
  files
  entered := []
  opened := []

-- in a writable directory `mkfifo` fails on an existing pipe only; no `open` gets a missing one
def relayCall (files : PipeFiles) : PipeCall → Option PipeFiles
  | .mkfifo _ .failed => none
  | .open path fd => if files path ∨ fd < 0 then some files else none
  | c => applyFile files c

def relayEvent (dir : String) (s : RelayFiles) : RelayEvent → Option RelayFiles
  | .call c => (relayCall s.files c).map fun files =>
      { s with
        files
        opened := match c with
          | .open path _ => s.opened ++ [(path, s.files path)]
          | _ => s.opened }
  | .enter fn => some
      { s with
        entered := s.entered ++ [(fn, fn.pipes.all fun pipe => s.files { dir, pipe })] }
  | .spawnFifo => some s

abbrev RelaySystem := Processes RelayFiles RelayEvent

def RelaySystem.start (files : PipeFiles) : RelaySystem where
  shared := .start files
  todo := []

def relayStep (dir : String) : RelaySystem → ProcAct (StartIn dir) → Option RelaySystem :=
  procStep (relayEvent dir) StartIn.events

/-- Every call of an opening function found all its pipes, and no open missed one. -/
structure AllFound (s : RelayFiles) : Prop where
  entered : ∀ x ∈ s.entered, x.2 = true
  opened : ∀ x ∈ s.opened, x.2 = true

/-! ## What a process needs for the rest of its start -/

-- no pipe of `files` is missing from `files'`
def Within (files files' : PipeFiles) : Prop := ∀ path, files path = true → files' path = true

theorem within_update (files : PipeFiles) (path : PipePath) :
    Within files (Function.update files path true) := by
  intro other hother
  rw [Function.update_apply, hother, ite_self]

theorem Within.update {files files' : PipeFiles} (h : Within files files') (path : PipePath) :
    Within (Function.update files path true) (Function.update files' path true) := by
  intro other hother
  rw [Function.update_apply] at hother ⊢
  by_cases heq : other = path
  · rw [if_pos heq]
  · rw [if_neg heq] at hother ⊢
    exact h other hother

theorem AllThere.within {files files' : PipeFiles} {dir : String} {pipes : List PipeName}
    (h : AllThere files dir pipes) (hle : Within files files') : AllThere files' dir pipes :=
  fun pipe hpipe => hle _ (h pipe hpipe)

/-- Whatever the other processes create meanwhile, the events find the pipes that they open; the
FIFO thread may count on the client pipes. -/
def FindsPipes (dir : String) : PipeFiles → List RelayEvent → Prop
  | _, [] => True
  | files, .call (.mkfifo path r) :: es =>
      r ≠ .failed → FindsPipes dir (Function.update files path true) es
  | files, .call (.open path _) :: es => files path = true ∧ FindsPipes dir files es
  | files, .call (.close _ _) :: es => FindsPipes dir files es
  | files, .enter fn :: es => AllThere files dir fn.pipes ∧ FindsPipes dir files es
  | files, .spawnFifo :: es =>
      ∀ files', Within files files' → AllThere files' dir OpenFn.client.pipes →
        FindsPipes dir files' es

theorem FindsPipes.within {dir : String} {files files' : PipeFiles} {es : List RelayEvent}
    (h : FindsPipes dir files es) (hle : Within files files') : FindsPipes dir files' es := by
  induction es generalizing files files' with
  | nil => trivial
  | cons e es ih =>
      cases e with
      | call c =>
          cases c with
          | mkfifo path r => exact fun hr => ih (h hr) (hle.update path)
          | «open» path fd => exact ⟨hle path h.1, ih h.2 hle⟩
          | close pipe fd => exact ih (show FindsPipes dir files es from h) hle
      | enter fn => exact ⟨h.1.within hle, ih h.2 hle⟩
      | spawnFifo =>
          intro later hlater hclient
          exact h later (fun path hpath => hlater path (hle path hpath)) hclient

section Programs

variable {dir : String} {files : PipeFiles}

theorem findsPipes_closeAll (pipes : List PipeName) (vars : PipeVars) {rest : List RelayEvent}
    (h : FindsPipes dir files rest) :
    FindsPipes dir files ((closeAll pipes vars).map .call ++ rest) := by
  induction pipes with
  | nil => exact h
  | cons pipe pipes ih => exact ih

-- after a chain of creations its pipes are there, whichever of them it has created
theorem findsPipes_mkfifoChain {os : Outcomes} {links : List Link} {vars : PipeVars}
    {rest : List RelayEvent} (hlast : StopsLast links)
    (h : ∀ files', Within files files' → AllThere files' dir (links.map Link.pipe) →
      FindsPipes dir files' rest) :
    FindsPipes dir files (callEvents (mkfifoChain os dir links vars) ++ rest) := by
  induction links generalizing files vars with
  | nil => exact h files (fun _ hpath => hpath) fun pipe hpipe => nomatch hpipe
  | cons link links ih =>
      have hmade := within_update files { dir, pipe := link.pipe }
      have hself : Function.update files { dir, pipe := link.pipe } true
          { dir, pipe := link.pipe } = true := Function.update_self ..
      unfold mkfifoChain
      by_cases hfail : os.mkfifo link.pipe = .failed
      · simp only [hfail, if_true]
        exact fun hr => absurd rfl hr
      by_cases hstop : os.mkfifo link.pipe = .eexist ∧ (!link.existsOk) = true
      · -- -1 for a pipe that exists, and it is the last one
        have hoff : link.existsOk = false := by
          rw [← Bool.not_not link.existsOk, hstop.2]
          rfl
        have hend : links = [] := hlast.1 hoff
        simp only [hstop, if_true, and_self]
        intro _
        refine h _ hmade fun pipe hpipe => ?_
        rw [hend] at hpipe
        rw [List.mem_singleton.mp hpipe, hself]
      · simp only [hfail, hstop, if_false]
        intro _
        apply ih hlast.2
        intro files' hle hall
        refine h files' (fun path hpath => hle path (hmade path hpath)) fun pipe hpipe => ?_
        cases List.mem_cons.mp hpipe with
        | inl heq =>
            rw [heq]
            exact hle _ hself
        | inr hin => exact hall pipe hin

theorem findsPipes_openChain {os : Outcomes} {links : List Link} {vars : PipeVars}
    {rest : List RelayEvent} (hthere : AllThere files dir (links.map Link.pipe))
    (h : FindsPipes dir files rest) :
    FindsPipes dir files (callEvents (openChain os dir links vars) ++ rest) := by
  induction links generalizing vars with
  | nil => exact h
  | cons link links ih =>
      have hlink : files { dir, pipe := link.pipe } = true := hthere _ (List.mem_cons_self ..)
      have hlinks : AllThere files dir (links.map Link.pipe) := fun pipe hpipe =>
        hthere pipe (List.mem_cons_of_mem _ hpipe)
      unfold openChain
      by_cases hfd : os.openFd link.pipe < 0
      · simp only [hfd, if_true]
        exact ⟨hlink, findsPipes_closeAll _ _ h⟩
      · simp only [hfd, if_false]
        exact ⟨hlink, ih hlinks⟩

theorem findsPipes_openEvents (fn : OpenFn) {os : Outcomes} (vars : PipeVars)
    {rest : List RelayEvent} (hpath : os.serverPath = some dir)
    (hthere : AllThere files dir fn.pipes) (h : FindsPipes dir files rest) :
    FindsPipes dir files (openEvents fn os vars ++ rest) := by
  have hrun : ∀ run, withServerPath os vars run = run dir := by
    intro run
    rw [withServerPath, hpath]
  refine ⟨hthere, ?_⟩
  cases fn with
  | server =>
      have hopen : OpenFn.server.run os vars = _ := hrun _
      rw [hopen]
      exact findsPipes_openChain hthere h
  | client =>
      have hopen : OpenFn.client.run os vars = _ := hrun _
      rw [hopen]
      exact findsPipes_openChain hthere h

theorem findsPipes_initLib (fn : FifoFn) {start : RelayStart} {vars : PipeVars}
    {rest : List RelayEvent} (hset : start.AllSet dir)
    (h : ∀ files', Within files files' → AllThere files' dir fn.pipes →
      FindsPipes dir files' rest) :
    FindsPipes dir files (callEvents (initCxlRelayLib fn.run start vars) ++ rest) := by
  obtain ⟨p, hp⟩ := Option.isSome_iff_exists.mp hset.logPath
  have hcalls : callEvents (initCxlRelayLib fn.run start vars) =
      callEvents (mkfifoChain start.os dir fn.links vars) := by
    rw [initCxlRelayLib, hp, ← fn.run_eq hset.serverPath vars]
    rfl
  rw [hcalls]
  exact findsPipes_mkfifoChain fn.links_stopsLast h

theorem findsPipes_rtlSideTcpServerInit {start : RelayStart} (hset : start.AllSet dir)
    (usenetwork : Bool) (vars : PipeVars) :
    FindsPipes dir files (rtlSideTcpServerInit start usenetwork vars) := by
  unfold rtlSideTcpServerInit
  cases usenetwork with
  | true => trivial
  | false =>
      cases start.threadStarts with
      | false => trivial
      | true =>
          intro files' _ hclient
          have hopen := findsPipes_openEvents .client vars hset.serverPath hclient
            (show FindsPipes dir files' [] from trivial)
          rwa [List.append_nil] at hopen

theorem findsPipes_serverMain {start : RelayStart} (hset : start.AllSet dir) :
    FindsPipes dir files (serverMain start) := by
  obtain ⟨port, hport⟩ := Option.isSome_iff_exists.mp hset.serverPort
  obtain ⟨overIp, hoverIp⟩ := Option.isSome_iff_exists.mp hset.overIp
  unfold serverMain
  simp only [hport, hoverIp]
  apply findsPipes_initLib .initServerFifo hset
  intro files' _ hthere
  cases start.logOpens with
  | false => trivial
  | true =>
      apply findsPipes_openEvents .server _ hset.serverPath hthere
      by_cases hret : (openServerPipe start.os (initCxlRelayServerLib start .init).vars).ret < 0
      · rw [if_pos hret]
        trivial
      · rw [if_neg hret]
        exact findsPipes_rtlSideTcpServerInit hset _ _

theorem findsPipes_clientMain {start : RelayStart} (hset : start.AllSet dir) :
    FindsPipes dir files (clientMain start) := by
  obtain ⟨ip, hip⟩ := Option.isSome_iff_exists.mp hset.serverIp
  obtain ⟨port, hport⟩ := Option.isSome_iff_exists.mp hset.serverPort
  obtain ⟨overIp, hoverIp⟩ := Option.isSome_iff_exists.mp hset.overIp
  unfold clientMain
  simp only [hip, hport, hoverIp]
  cases overIp == "yes" with
  | false => trivial
  | true =>
      cases start.logOpens with
      | false => trivial
      | true =>
          apply findsPipes_initLib .initClientFifo hset
          intro files' _ hthere
          have hopen := findsPipes_openEvents .client (initCxlRelayClientLib start .init).vars
            hset.serverPath hthere (show FindsPipes dir files' [] from trivial)
          rwa [List.append_nil] at hopen

end Programs

/-! ## Runs -/

/-- The FIFO thread is spawned only with both client pipes in the directory. -/
def FifoThreadReady (dir : String) (s : RelayFiles) : RelayEvent → Prop
  | .spawnFifo => AllThere s.files dir OpenFn.client.pipes
  | _ => True

theorem relayCall_mkfifo {files files' : PipeFiles} {path : PipePath} {r : MkfifoResult}
    (h : relayCall files (.mkfifo path r) = some files') :
    r ≠ .failed ∧ files' = Function.update files path true := by
  cases r with
  | failed => cases h
  | created => exact ⟨by decide, applyFile_mkfifo (r := .created) h (by decide)⟩
  | eexist => exact ⟨by decide, applyFile_mkfifo (r := .eexist) h (by decide)⟩

theorem relayCall_open {files files' : PipeFiles} {path : PipePath} {fd : ℤ}
    (h : relayCall files (.open path fd) = some files') : files' = files := by
  change (if files path ∨ fd < 0 then some files else none) = _ at h
  by_cases hopens : files path ∨ fd < 0
  · rw [if_pos hopens] at h
    exact (Option.some.inj h).symm
  · rw [if_neg hopens] at h
    cases h

theorem relayCall_within {files files' : PipeFiles} {c : PipeCall}
    (h : relayCall files c = some files') : Within files files' := by
  cases c with
  | mkfifo path r =>
      rw [(relayCall_mkfifo h).2]
      exact within_update files path
  | «open» path fd =>
      rw [relayCall_open h]
      exact fun _ hpath => hpath
  | close pipe fd =>
      have hsame : files = files' := Option.some.inj h
      rw [hsame]
      exact fun _ hpath => hpath

theorem relayEvent_within {dir : String} {s s' : RelayFiles} {e : RelayEvent}
    (h : relayEvent dir s e = some s') : Within s.files s'.files := by
  cases e with
  | call c =>
      obtain ⟨files, hcall, hs'⟩ := Option.map_eq_some_iff.mp h
      rw [← hs']
      exact relayCall_within hcall
  | enter fn =>
      rw [← Option.some.inj h]
      exact fun _ hpath => hpath
  | spawnFifo =>
      rw [← Option.some.inj h]
      exact fun _ hpath => hpath

-- one event of a process that finds its pipes
theorem relayEvent_found {dir : String} {s s' : RelayFiles} {e : RelayEvent}
    {es : List RelayEvent} (hs : AllFound s) (hfinds : FindsPipes dir s.files (e :: es))
    (hok : FifoThreadReady dir s e) (h : relayEvent dir s e = some s') :
    AllFound s' ∧ FindsPipes dir s'.files es := by
  cases e with
  | call c =>
      obtain ⟨files, hcall, hs'⟩ := Option.map_eq_some_iff.mp h
      rw [← hs']
      cases c with
      | mkfifo path r =>
          obtain ⟨hr, hfiles⟩ := relayCall_mkfifo hcall
          rw [hfiles]
          exact ⟨⟨hs.entered, hs.opened⟩, hfinds hr⟩
      | «open» path fd =>
          rw [relayCall_open hcall]
          refine ⟨⟨hs.entered, ?_⟩, hfinds.2⟩
          rw [List.forall_mem_append, List.forall_mem_singleton]
          exact ⟨hs.opened, hfinds.1⟩
      | close pipe fd =>
          have hsame : s.files = files := Option.some.inj hcall
          rw [← hsame]
          exact ⟨⟨hs.entered, hs.opened⟩, hfinds⟩
  | enter fn =>
      rw [← Option.some.inj h]
      refine ⟨⟨?_, hs.opened⟩, hfinds.2⟩
      rw [List.forall_mem_append, List.forall_mem_singleton]
      exact ⟨hs.entered, List.all_eq_true.mpr hfinds.1⟩
  | spawnFifo =>
      rw [← Option.some.inj h]
      exact ⟨hs, hfinds s.files (fun _ hpath => hpath) hok⟩

theorem StartIn.findsPipes {dir : String} (start : StartIn dir) (files : PipeFiles) :
    FindsPipes dir files start.events := by
  obtain ⟨program, start, hset⟩ := start
  cases program with
  | server => exact findsPipes_serverMain hset
  | client => exact findsPipes_clientMain hset

/-- Whatever relay programs are started and stopped in a directory, in any order and from any set of
pipes, each finds all the pipes that it opens, as long as the FIFO thread is spawned only with the
client pipes there. -/
theorem relay_allFound {dir : String} {files : PipeFiles} {s : RelaySystem}
    (h : RunsTo (stepOf (relayStep dir)) (NextMeets (FifoThreadReady dir)) (.start files) s) :
    AllFound s.shared := by
  have hstart : (RelaySystem.start files).Covered AllFound (fun s => FindsPipes dir s.files) := by
    refine ⟨⟨fun x hx => ?_, fun x hx => ?_⟩, fun es hes => ?_⟩
    · cases hx
    · cases hx
    · cases hes
  have hcovered := Processes.covered (C := fun s => FindsPipes dir s.files)
    (fun _ => trivial) (fun s start => StartIn.findsPipes start s.files)
    (fun _ _ _ _ hs hfinds hok hevent => relayEvent_found hs hfinds hok hevent)
    (fun _ _ _ _ hevent hfinds => hfinds.within (relayEvent_within hevent)) h hstart
  exact hcovered.shared

/-! ## A directory with and without pipes of an earlier run -/

-- nothing takes the client pipes away
theorem relayStep_keeps {dir : String} {s s' : RelaySystem} {a : ProcAct (StartIn dir)}
    (h : relayStep dir s a = some s') : Within s.shared.files s'.shared.files := by
  cases a with
  | start b =>
      rw [← Option.some.inj h]
      exact fun _ hpath => hpath
  | next i =>
      obtain ⟨e, es, -, hevent, -⟩ := procStep_next h
      exact relayEvent_within hevent
  | stop i =>
      rw [← Option.some.inj h]
      exact fun _ hpath => hpath

-- where they are in the directory from the start, the FIFO thread is always ready
theorem relay_ready_of_there {dir : String} {s : RelaySystem}
    (h : AllThere s.shared.files dir OpenFn.client.pipes) (acts : List (ProcAct (StartIn dir))) :
    okAlong (relayStep dir) (NextMeets (FifoThreadReady dir)) s acts := by
  apply okAlong_of_invariant (I := fun s => AllThere s.shared.files dir OpenFn.client.pipes)
    (fun _ _ _ hs hstep => hs.within (relayStep_keeps hstep)) ?_ h
  intro s a hs
  cases a with
  | start b => trivial
  | next i =>
      intro e es _
      cases e with
      | call c => trivial
      | enter fn => trivial
      | spawnFifo => exact hs
  | stop i => trivial

-- a server in `run` that does not work over IP, with the same result for every `mkfifo`
def fifoServer (r : MkfifoResult) (openFd : PipeName → ℤ) : StartIn "run" where
  program := .server
  start :=
    { env := { logPath := some ".", serverIp := some "127.0.0.1", serverPort := some "1979"
               overIp := some "no" }
      os := { serverPath := some "run", mkfifo := fun _ => r, openFd }
      logOpens := true
      threadStarts := true }
  allSet := ⟨rfl, rfl, rfl, rfl, rfl⟩

def firstEvents (n : ℕ) : List (ProcAct (StartIn "run")) := List.replicate n (.next 0)

theorem relay_allFound_restart :
    ∃ s : RelaySystem, exec (relayStep "run") (.start fun _ => true)
        (.start (fifoServer .eexist fun _ => 3) :: firstEvents 9) = some s ∧
      s.shared.entered = [(.server, true), (.client, true)] ∧ AllFound s.shared := by
  have hrun : exec (relayStep "run") (.start fun _ => true)
      (.start (fifoServer .eexist fun _ => 3) :: firstEvents 9) = some _ := rfl
  exact ⟨_, hrun, rfl,
    relay_allFound (RunsTo.of_exec hrun (relay_ready_of_there (fun _ _ => rfl) _))⟩

/-- In an empty directory the server that does not work over IP opens client pipes that nobody has
created. -/
theorem relay_notFound_first :
    ∃ s : RelaySystem, exec (relayStep "run") (.start fun _ => false)
        (.start (fifoServer .created fun _ => 3) :: firstEvents 7) = some s ∧
      ¬AllFound s.shared := by
  refine ⟨_, rfl, fun hfound => ?_⟩
  have hclient := hfound.entered (.client, false) (List.mem_cons_of_mem _ (List.mem_cons_self ..))
  exact Bool.false_ne_true hclient

end SimConnect.NamedPipe
