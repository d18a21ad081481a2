import SimConnect.Pipes
import SimConnect.Foundation.Program

/-!
# dml_debug.c: one access to the cosim

`simics_send_access_to_cosim` as a program over the calls it makes to the operating system and to
stdio, with `open_relay_log` (dml_cxl_relay_interface.c) and `open_client_pipe` (named_pipe.c).
What goes to the standard output is left out, and so are the times that are only printed.
-/

open SimConnect.Foundation

namespace SimConnect

/-! ## Calls -/

inductive EnvVar
  | cxlRelayLogPath
  | cxlRelayServerPath
  deriving DecidableEq

-- the fixed buffers that strings are built in; testhost.c has a `logfile` of its own
inductive StringBuf
  | cxlRelayLogPath
  | logfile
  | testhostLogfile
  | pipeStr (pipe : PipeName)
  deriving DecidableEq

def StringBuf.size : StringBuf → ℕ
  | .cxlRelayLogPath => 4096
  | .logfile => 1024
  | .testhostLogfile => 2096
  | .pipeStr _ => 1024

structure PipePath where
  dir : String
  pipe : PipeName

-- sprintf(.., "%s/%s", p, ..)
def PipePath.str (path : PipePath) : String := path.dir ++ "/" ++ path.pipe.fileName

/-- `strbuf` is the contents that a `strcpy`, `strcat` or `sprintf` leaves in a buffer.  The
argument of `fprintf` and `fflush` says whether the `FILE *` is not NULL. -/
inductive SysCall
  | getenv (name : EnvVar)
  | strbuf (buf : StringBuf) (s : String)
  | fopen (path : String)
  | localtime
  | fprintf (fp : Bool)
  | fflush (fp : Bool)
  | open (path : PipePath)
  | close (fd : ℤ)
  | write (fd : ℤ) (p : SimicsTransaction)
  | read (fd : ℤ)

abbrev SysCall.Ret : SysCall → Type
  | .getenv _ => Option String
  | .strbuf _ _ => Unit
  | .fopen _ => Bool
  | .localtime => Bool
  | .fprintf _ => Unit
  | .fflush _ => Unit
  | .open _ => ℤ
  | .close _ => Unit
  | .write _ _ => ℤ
  | .read _ => ReadResult

/-- The file-scope variables that outlive an access.  `logfp` says whether the log is open. -/
structure DeviceLib where
  simicsPacketNo : UInt32
  timeStarted : Bool
  numXactions : UInt32
  logfp : Bool
  requestClientPipe : ℤ
  replyClientPipe : ℤ

def DeviceLib.init : DeviceLib where
  simicsPacketNo := 1
  timeStarted := false
  numXactions := 0
  logfp := false
  requestClientPipe := 0
  replyClientPipe := 0

abbrev LibM := StateT DeviceLib (Prog SysCall SysCall.Ret)

def sys (c : SysCall) : LibM c.Ret := StateT.lift (.invoke c)

def exit {α : Type} : LibM α := StateT.lift .halt

/-! ## The log -/

def openRelayLog : LibM ℤ := do
  match ← sys (.getenv .cxlRelayLogPath) with
  | none =>
      sys (.strbuf .cxlRelayLogPath "./")
      return -1
  | some p =>
      sys (.strbuf .cxlRelayLogPath p)
      sys (.strbuf .cxlRelayLogPath (p ++ "/"))
      sys (.strbuf .logfile (p ++ "/" ++ "simics_cxl_relay_log.txt"))
      if !(← get).logfp then
        let fp ← sys (.fopen (p ++ "/" ++ "simics_cxl_relay_log.txt"))
        modify fun lib => { lib with logfp := fp }
      if !(← get).logfp then
        exit
      else
        return 0

-- fprintf(logfp, ..)
def logPrint : LibM Unit := do
  sys (.fprintf (← get).logfp)

def logFlush : LibM Unit := do
  sys (.fflush (← get).logfp)

-- one message under `if(verbose)`
def logVerbose (verbose : Bool) : LibM Unit :=
  if verbose then do
    logPrint
    logFlush
  else
    pure ()

/-- `simics_print_fifo_pkt_data_and_log` with `fp = logfp`: one entry for a packet whose `sim_type`
and `data_size` are in range. -/
def simicsPrintFifoPktDataAndLog : LibM ℤ := do
  if !(← sys .localtime) then
    return -1
  else
    if (← get).logfp then
      logPrint
      logFlush
    return 0

-- print_timestamp(.., logfp)
def printTimestamp : LibM Unit := do
  if ← sys .localtime then
    logPrint

/-! ## The pipes -/

def openClientPipe : LibM ℤ := do
  match ← sys (.getenv .cxlRelayServerPath) with
  | none => return -1
  | some p =>
      sys (.strbuf (.pipeStr .requestClient) (PipePath.str ⟨p, .requestClient⟩))
      sys (.strbuf (.pipeStr .replyClient) (PipePath.str ⟨p, .replyClient⟩))
      sys (.strbuf (.pipeStr .requestServer) (PipePath.str ⟨p, .requestServer⟩))
      sys (.strbuf (.pipeStr .replyServer) (PipePath.str ⟨p, .replyServer⟩))
      let requestFd ← sys (.open ⟨p, .requestClient⟩)
      modify fun lib => { lib with requestClientPipe := requestFd }
      if requestFd < 0 then
        return -1
      else
        let replyFd ← sys (.open ⟨p, .replyClient⟩)
        modify fun lib => { lib with replyClientPipe := replyFd }
        if replyFd < 0 then
          sys (.close requestFd)
          return -1
        else
          return 0

def enqueRequestClient (p : SimicsTransaction) : LibM (Option SimicsTransaction) := do
  let retval ← sys (.write (← get).requestClientPipe p)
  return simicsEnqueRequestClientTlp retval p

def dequeReplyRequestClient (rd : SimicsTransaction) : LibM (ℤ × SimicsTransaction) := do
  let r ← sys (.read (← get).replyClientPipe)
  return simicsDequeReplyRequestClientTlp r rd

/-! ## The access -/

-- the arguments of a call
structure Access where
  spd : SimicsTransaction
  rd : SimicsTransaction
  verbose : Bool
  timeStartFlag : Bool
  timeEndFlag : Bool

-- spd and rd: what the caller's two packets hold afterwards
structure AccessResult where
  retval : ℤ
  spd : SimicsTransaction
  rd : SimicsTransaction
  deriving DecidableEq

-- time_end_flag prints the elapsed time and does nothing else
def endTiming (spd rd : SimicsTransaction) : LibM AccessResult := do
  modify fun lib => { lib with timeStarted := false }
  printTimestamp
  printTimestamp
  logPrint
  return { retval := 0, spd, rd }

-- the failed open: the message depends on a second getenv
def openFailed (spd rd : SimicsTransaction) : LibM AccessResult := do
  if (← sys (.getenv .cxlRelayServerPath)).isNone then
    logPrint
  logPrint
  logFlush
  return { retval := -1, spd, rd }

-- after the enqueue; `exit(0)` stands inside `if(verbose)`
def reportEnqueue (verbose : Bool) : Option SimicsTransaction → LibM Unit
  | some _ => do
      logVerbose verbose
      let _ ← simicsPrintFifoPktDataAndLog
  | none =>
      if verbose then do
        logPrint
        logFlush
        exit
      else
        pure ()

def reportReply (verbose : Bool) : LibM Unit := do
  logVerbose verbose
  if verbose then
    logPrint
  let _ ← simicsPrintFifoPktDataAndLog
  logPrint
  logFlush
  if verbose then
    logFlush
    logPrint
    logFlush

-- the part after both pipes are open
def exchange (spd rd : SimicsTransaction) (verbose : Bool) : LibM AccessResult := do
  let p ← enqueRequestClient spd
  reportEnqueue verbose p
  logVerbose verbose
  let reply ← dequeReplyRequestClient rd
  reportReply verbose
  modify fun lib => { lib with numXactions := lib.numXactions + 1 }
  return { retval := reply.1, spd, rd := reply.2 }

-- spd->packet_number = simics_packet_no++
def assignPacketNumber (spd : SimicsTransaction) : LibM SimicsTransaction := do
  let lib ← get
  set { lib with simicsPacketNo := lib.simicsPacketNo + 1 }
  return { spd with packetNumber := lib.simicsPacketNo }

-- after the timing flags have been looked at
def accessRest (a : Access) (spd : SimicsTransaction) : LibM AccessResult := do
  if a.timeEndFlag then
    endTiming spd a.rd
  else
    logVerbose a.verbose
    logVerbose a.verbose
    if (← openClientPipe) < 0 then
      openFailed spd a.rd
    else
      exchange spd a.rd a.verbose

/-- `simics_send_access_to_cosim`. -/
def simicsSendAccessToCosim (a : Access) : LibM AccessResult := do
  let spd ← assignPacketNumber a.spd
  let _ ← openRelayLog
  if a.timeStartFlag && !(← get).timeStarted then
    modify fun lib => { lib with timeStarted := true }
  accessRest a spd

end SimConnect
