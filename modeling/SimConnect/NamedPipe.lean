import SimConnect.AccessCalls
import SimConnect.Foundation.Handles
import SimConnect.Foundation.Transition

/-!
# named_pipe.c: creation, opening and closing of the pipes

The four globals `request_client_pipe` to `reply_server_pipe` take the result of `mkfifo` as well as
that of `open`, and they start at 0.  The creating functions are chains of `mkfifo`, the opening
ones chains of `open`; a link that fails closes the variables of the links before it.
-/

open SimConnect.Foundation

namespace SimConnect.NamedPipe

/-! ## Calls and variables -/

/-- The result of a `mkfifo`; `failed` is any errno other than `EEXIST`. -/
inductive MkfifoResult
  | created
  | eexist
  | failed
  deriving DecidableEq

def MkfifoResult.ret : MkfifoResult → ℤ
  | created => 0
  | eexist => -1
  | failed => -1

-- `close` names the global whose value is closed
inductive PipeCall
  | mkfifo (path : PipePath) (r : MkfifoResult)
  | open (path : PipePath) (fd : ℤ)
  | close (pipe : PipeName) (fd : ℤ)

abbrev PipeVars := PipeName → ℤ

def PipeVars.init : PipeVars := fun _ => 0

/-- The environment variable and the results of the system calls during one function.  No function
creates or opens a pipe twice. -/
structure Outcomes where
  serverPath : Option String
  mkfifo : PipeName → MkfifoResult
  openFd : PipeName → ℤ

structure PipeRun where
  ret : ℤ
  vars : PipeVars
  calls : List PipeCall

-- the calls made before `run`
def PipeRun.after (run : PipeRun) (calls : List PipeCall) : PipeRun :=
  { run with calls := calls ++ run.calls }

def closeAll (pipes : List PipeName) (vars : PipeVars) : List PipeCall :=
  pipes.map fun pipe => .close pipe (vars pipe)

/-! ## Chains -/

/-- One link: `closes` are the globals that a failure closes.  Where `existsOk` is off the function
returns -1 for an existing pipe as well. -/
structure Link where
  pipe : PipeName
  closes : List PipeName
  existsOk : Bool

def mkfifoChain (os : Outcomes) (dir : String) : List Link → PipeVars → PipeRun
  | [], vars => { ret := 0, vars, calls := [] }
  | link :: links, vars =>
      let r := os.mkfifo link.pipe
      let vars' := Function.update vars link.pipe r.ret
      let call := PipeCall.mkfifo { dir, pipe := link.pipe } r
      if r = .failed then
        { ret := -1, vars := vars', calls := call :: closeAll link.closes vars' }
      else if r = .eexist ∧ !link.existsOk then
        { ret := -1, vars := vars', calls := [call] }
      else
        (mkfifoChain os dir links vars').after [call]

def openChain (os : Outcomes) (dir : String) : List Link → PipeVars → PipeRun
  | [], vars => { ret := 0, vars, calls := [] }
  | link :: links, vars =>
      let fd := os.openFd link.pipe
      let vars' := Function.update vars link.pipe fd
      let call := PipeCall.open { dir, pipe := link.pipe } fd
      if fd < 0 then
        { ret := -1, vars := vars', calls := call :: closeAll link.closes vars' }
      else
        (openChain os dir links vars').after [call]

-- CXL_RELAY_SERVER_PATH is looked up first
def withServerPath (os : Outcomes) (vars : PipeVars) (run : String → PipeRun) : PipeRun :=
  match os.serverPath with
  | none => { ret := -1, vars, calls := [] }
  | some p => run p

/-! ## The functions -/

def clientLinks : List Link :=
  [{ pipe := .requestClient, closes := [], existsOk := true },
   { pipe := .replyClient, closes := [.requestClient], existsOk := true }]

-- the last link returns -1 outside of `if(errno != EEXIST)`
def serverLinks : List Link :=
  [{ pipe := .requestServer, closes := [.requestClient, .replyClient], existsOk := true },
   { pipe := .replyServer, closes := [.requestClient, .replyClient, .requestServer]
     existsOk := false }]

def initClientFifo (os : Outcomes) (vars : PipeVars) : PipeRun :=
  withServerPath os vars fun p => mkfifoChain os p clientLinks vars

def initServerFifo (os : Outcomes) (vars : PipeVars) : PipeRun :=
  withServerPath os vars fun p => mkfifoChain os p serverLinks vars

def initNamedFifo (os : Outcomes) (vars : PipeVars) : PipeRun :=
  withServerPath os vars fun p => mkfifoChain os p (clientLinks ++ serverLinks) vars

def openClientPipe (os : Outcomes) (vars : PipeVars) : PipeRun :=
  withServerPath os vars fun p => openChain os p clientLinks vars

def openServerPipe (os : Outcomes) (vars : PipeVars) : PipeRun :=
  withServerPath os vars fun p => openChain os p
    [{ pipe := .requestServer, closes := [], existsOk := true },
     { pipe := .replyServer, closes := [.requestServer], existsOk := true }] vars

def closeNamedFifo (vars : PipeVars) : PipeRun where
  ret := 0
  vars
  calls := closeAll [.requestClient, .replyClient, .requestServer, .replyServer] vars

def closeClientPipe (vars : PipeVars) : PipeRun where
  ret := 0
  vars
  calls := closeAll (if 0 ≤ vars .requestClient then [.requestClient] else []) vars ++
    closeAll (if 0 ≤ vars .replyClient then [.replyClient] else []) vars

inductive PipeFn
  | initClientFifo
  | initServerFifo
  | initNamedFifo
  | openClientPipe
  | openServerPipe
  | closeClientPipe
  | closeNamedFifo
  deriving DecidableEq

def PipeFn.run : PipeFn → Outcomes → PipeVars → PipeRun
  | initClientFifo, os, vars => NamedPipe.initClientFifo os vars
  | initServerFifo, os, vars => NamedPipe.initServerFifo os vars
  | initNamedFifo, os, vars => NamedPipe.initNamedFifo os vars
  | openClientPipe, os, vars => NamedPipe.openClientPipe os vars
  | openServerPipe, os, vars => NamedPipe.openServerPipe os vars
  | closeClientPipe, _, vars => NamedPipe.closeClientPipe vars
  | closeNamedFifo, _, vars => NamedPipe.closeNamedFifo vars

/-! ## open_client_pipe inside an access -/

-- what the operating system answers to the device library
def Outcomes.answer (os : Outcomes) : (c : SysCall) → c.Ret
  | .getenv _ => os.serverPath
  | .open path => os.openFd path.pipe
  | .strbuf _ _ => ()
  | .fopen _ => true
  | .localtime => true
  | .fprintf _ => ()
  | .fflush _ => ()
  | .close _ => ()
  | .write _ _ => -1
  | .read _ => .fail

def PipeCall.sysCall? : PipeCall → Option (Σ c, SysCall.Ret c)
  | .mkfifo _ _ => none
  | .open path fd => some ⟨.open path, fd⟩
  | .close _ fd => some ⟨.close fd, ()⟩

-- the two globals of the client pipes, as the device library has them
def clientVars (lib : DeviceLib) : PipeVars
  | .requestClient => lib.requestClientPipe
  | .replyClient => lib.replyClientPipe
  | _ => 0

/-- The `open_client_pipe` of the access model makes the same calls, leaves the same values in the
globals and returns the same. -/
theorem openClientPipe_access (os : Outcomes) (lib : DeviceLib) :
    let access :=
      (SimConnect.openClientPipe.run lib).runWith (fun (_ : Unit) c => (os.answer c, ())) ()
    let run := openClientPipe os (clientVars lib)
    ioCalls access.1 = run.calls.filterMap PipeCall.sysCall? ∧
      access.2.1 = some (run.ret, { lib with
        requestClientPipe := run.vars .requestClient
        replyClientPipe := run.vars .replyClient }) := by
  obtain ⟨serverPath, mkfifo, openFd⟩ := os
  cases serverPath with
  | none => exact ⟨rfl, rfl⟩
  | some p =>
      -- the four path strings come first
      change
        let access := ((do
          modify fun lib => { lib with requestClientPipe := openFd .requestClient }
          if openFd .requestClient < 0 then
            return -1
          else
            let replyFd ← sys (.open ⟨p, .replyClient⟩)
            modify fun lib => { lib with replyClientPipe := replyFd }
            if replyFd < 0 then
              sys (.close (openFd .requestClient))
              return -1
            else
              return 0 : LibM ℤ).run lib).runWith
                (fun (_ : Unit) c => (Outcomes.answer ⟨some p, mkfifo, openFd⟩ c, ())) ()
        ioCalls ([⟨.open ⟨p, .requestClient⟩, openFd .requestClient⟩] ++ access.1) = _ ∧
          access.2.1 = _
      by_cases hrequest : openFd .requestClient < 0
      · have hrun : openClientPipe ⟨some p, mkfifo, openFd⟩ (clientVars lib) =
            { ret := -1
              vars := Function.update (clientVars lib) .requestClient (openFd .requestClient)
              calls := [.open ⟨p, .requestClient⟩ (openFd .requestClient)] } := if_pos hrequest
        rw [if_pos hrequest, hrun]
        exact ⟨rfl, rfl⟩
      · have hrun : openClientPipe ⟨some p, mkfifo, openFd⟩ (clientVars lib) =
            PipeRun.after (if openFd .replyClient < 0 then _ else _) _ := if_neg hrequest
        rw [if_neg hrequest, hrun]
        change
          let access := ((if openFd .replyClient < 0 then do
              sys (.close (openFd .requestClient))
              return -1
            else
              return 0 : LibM ℤ).run { lib with
                requestClientPipe := openFd .requestClient
                replyClientPipe := openFd .replyClient }).runWith
                  (fun (_ : Unit) c => (Outcomes.answer ⟨some p, mkfifo, openFd⟩ c, ())) ()
          ioCalls ([⟨.open ⟨p, .requestClient⟩, openFd .requestClient⟩,
            ⟨.open ⟨p, .replyClient⟩, openFd .replyClient⟩] ++ access.1) = _ ∧ access.2.1 = _
        by_cases hreply : openFd .replyClient < 0
        · rw [if_pos hreply, if_pos hreply]
          exact ⟨rfl, rfl⟩
        · rw [if_neg hreply, if_neg hreply]
          exact ⟨rfl, rfl⟩

end SimConnect.NamedPipe
