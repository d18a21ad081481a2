import SimConnect.Packet
import SimConnect.Foundation.Transition
import Mathlib.Data.List.Basic

/-!
# Forwarding threads that outlive a connection

`host_request_read_thread` and `cxl_rtl_to_host_reply_thread` (with a network) take the same steps.
A thread copies its socket number through a pointer to a local variable of the main thread, then
repeats: check the stop flag, dequeue into the one static packet, `CXL_Send` that packet.  All
threads ever spawned share the flag, the static packet and the pipe.
-/

namespace SimConnect

/-! ## Sockets -/

-- idle: open, but with no peer
inductive SockState
  | closed
  | idle
  | connected
  deriving DecidableEq

/-- What the main thread shares with the threads it spawns: the stop flag, its own socket variable
and the sockets of the process.  `accepted` is the socket of the connection made last. -/
structure Shared where
  stop : Bool
  socket : ℤ
  sockets : ℤ → SockState
  accepted : ℤ

def Shared.setSocket (sh : Shared) (fd : ℤ) (st : SockState) : Shared :=
  { sh with sockets := Function.update sh.sockets fd st }

theorem Shared.setSocket_same (sh : Shared) (fd : ℤ) (st : SockState) :
    (sh.setSocket fd st).sockets fd = st := by
  simp only [setSocket, Function.update_self]

theorem Shared.setSocket_other (sh : Shared) {fd fd' : ℤ} (st : SockState) (h : fd' ≠ fd) :
    (sh.setSocket fd st).sockets fd' = sh.sockets fd' := by
  simp only [setSocket, Function.update_of_ne h]

/-! ## The threads -/

inductive WorkerPc
  | start
  | check
  | deque
  | forward
  | exited
  deriving DecidableEq

-- taken: the packet of the thread's last dequeue, wherever the static packet has gone since
structure Worker where
  pc : WorkerPc
  sock : ℤ
  taken : SimicsTransaction

inductive WorkerEvent
  | took (sock accepted : ℤ) (state : SockState)
  | sent (taken buffer : SimicsTransaction) (state : SockState)

/-- The threads spawned so far; the others count as exited.  `log` records every dequeue and every
`CXL_Send`, with the state of the socket at that moment. -/
structure Pool where
  workers : ℕ → Worker
  spawned : ℕ
  simicsData : SimicsTransaction
  pipe : List SimicsTransaction
  log : List WorkerEvent

inductive WorkerAct
  | start (i : ℕ)
  | check (i : ℕ)
  | deque (i : ℕ)
  | send (i : ℕ)

namespace Pool

def empty (simicsData : SimicsTransaction) (pipe : List SimicsTransaction) : Pool :=
  { workers := fun _ => { pc := .exited, sock := -1, taken := .zero }
    spawned := 0, simicsData, pipe, log := [] }

def set (pool : Pool) (i : ℕ) (w : Worker) : Pool :=
  { pool with workers := Function.update pool.workers i w }

def spawn (pool : Pool) : Pool :=
  { pool.set pool.spawned { pc := .start, sock := -1, taken := .zero } with
    spawned := pool.spawned + 1 }

def enqueue (pool : Pool) (p : SimicsTransaction) : Pool :=
  { pool with pipe := pool.pipe ++ [p] }

/-- One step of one thread.  The dequeue blocks while the pipe is empty; the send puts out whatever
the static packet holds by then. -/
def step (sh : Shared) (pool : Pool) : WorkerAct → Option Pool
  | .start i =>
      if (pool.workers i).pc = .start then
        some (pool.set i { pool.workers i with pc := .check, sock := sh.socket })
      else none
  | .check i =>
      if (pool.workers i).pc = .check then
        some (pool.set i { pool.workers i with pc := if sh.stop then .exited else .deque })
      else none
  | .deque i =>
      if (pool.workers i).pc = .deque then
        match pool.pipe with
        | [] => none
        | p :: rest => some
            { pool.set i { pool.workers i with pc := .forward, taken := p } with
              simicsData := p
              pipe := rest
              log := pool.log ++
                [.took (pool.workers i).sock sh.accepted (sh.sockets (pool.workers i).sock)] }
      else none
  | .send i =>
      if (pool.workers i).pc = .forward then
        some
          { pool.set i { pool.workers i with pc := .check } with
            log := pool.log ++ [.sent (pool.workers i).taken pool.simicsData
              (sh.sockets (pool.workers i).sock)] }
      else none

def Alive (pool : Pool) (i : ℕ) : Prop := (pool.workers i).pc ≠ .exited

-- the thread has dequeued a packet and not sent it yet
def Holds (pool : Pool) (i : ℕ) : Prop := (pool.workers i).pc = .forward

theorem Holds.alive {pool : Pool} {i : ℕ} (h : pool.Holds i) : pool.Alive i := by
  rw [Alive, show (pool.workers i).pc = .forward from h]
  exact WorkerPc.noConfusion

instance (pool : Pool) (i : ℕ) : Decidable (pool.Holds i) :=
  inferInstanceAs (Decidable (_ = _))

-- two threads have been spawned at most, and neither holds a packet
theorem none_holds {pool : Pool} (hfirst : decide (pool.Holds 0) = false)
    (hsecond : decide (pool.Holds 1) = false)
    (hothers : ∀ i, (pool.workers (i + 2)).pc = .exited) : ∀ i, ¬ pool.Holds i
  | 0 => of_decide_eq_false hfirst
  | 1 => of_decide_eq_false hsecond
  | i + 2 => fun hi => hi.alive (hothers i)

theorem set_same (pool : Pool) (i : ℕ) (w : Worker) : (pool.set i w).workers i = w := by
  simp only [set, Function.update_self]

theorem set_other (pool : Pool) {i j : ℕ} (w : Worker) (h : j ≠ i) :
    (pool.set i w).workers j = pool.workers j := by
  simp only [set, Function.update_of_ne h]

/-! ## What a step does -/

section Step

variable {sh : Shared} {pool pool' : Pool} {i : ℕ}

theorem step_start (h : pool.step sh (.start i) = some pool') :
    (pool.workers i).pc = .start ∧
      pool' = pool.set i { pool.workers i with pc := .check, sock := sh.socket } := by
  simp only [step] at h
  split at h
  · rename_i hpc
    exact ⟨hpc, (Option.some.inj h).symm⟩
  · cases h

theorem step_check (h : pool.step sh (.check i) = some pool') :
    (pool.workers i).pc = .check ∧
      pool' = pool.set i
        { pool.workers i with pc := if sh.stop then .exited else .deque } := by
  simp only [step] at h
  split at h
  · rename_i hpc
    exact ⟨hpc, (Option.some.inj h).symm⟩
  · cases h

theorem step_deque (h : pool.step sh (.deque i) = some pool') :
    (pool.workers i).pc = .deque ∧ ∃ p rest, pool.pipe = p :: rest ∧
      pool' = { pool.set i { pool.workers i with pc := .forward, taken := p } with
        simicsData := p
        pipe := rest
        log := pool.log ++
          [.took (pool.workers i).sock sh.accepted (sh.sockets (pool.workers i).sock)] } := by
  simp only [step] at h
  split at h
  · rename_i hpc
    cases hpipe : pool.pipe with
    | nil =>
        rw [hpipe] at h
        cases h
    | cons p rest =>
        rw [hpipe] at h
        exact ⟨hpc, p, rest, rfl, (Option.some.inj h).symm⟩
  · cases h

theorem step_send (h : pool.step sh (.send i) = some pool') :
    pool.Holds i ∧
      pool' = { pool.set i { pool.workers i with pc := .check } with
        log := pool.log ++ [.sent (pool.workers i).taken pool.simicsData
          (sh.sockets (pool.workers i).sock)] } := by
  simp only [step] at h
  split at h
  · rename_i hpc
    exact ⟨hpc, (Option.some.inj h).symm⟩
  · cases h

end Step

section Alive

variable {sh : Shared} {pool pool' : Pool}

theorem set_alive {i j : ℕ} {w : Worker} (hi : pool.Alive i) (hj : (pool.set i w).Alive j) :
    pool.Alive j := by
  by_cases hji : j = i
  · rw [hji]
    exact hi
  · rwa [Alive, set_other pool w hji] at hj

-- only a live thread takes a step, and a step wakes up no other
theorem step_alive {a : WorkerAct} (h : pool.step sh a = some pool') :
    (∃ i, pool.Alive i) ∧ ∀ j, pool'.Alive j → pool.Alive j := by
  have halive : ∀ {i : ℕ} {pc : WorkerPc}, (pool.workers i).pc = pc → pc ≠ .exited →
      pool.Alive i := by
    intro i pc hpc hne
    rw [Alive, hpc]
    exact hne
  cases a with
  | start i =>
      obtain ⟨hpc, rfl⟩ := step_start h
      have hi := halive hpc WorkerPc.noConfusion
      exact ⟨⟨i, hi⟩, fun j hj => set_alive hi hj⟩
  | check i =>
      obtain ⟨hpc, rfl⟩ := step_check h
      have hi := halive hpc WorkerPc.noConfusion
      exact ⟨⟨i, hi⟩, fun j hj => set_alive hi hj⟩
  | deque i =>
      obtain ⟨hpc, p, rest, _, rfl⟩ := step_deque h
      have hi := halive hpc WorkerPc.noConfusion
      exact ⟨⟨i, hi⟩, fun j hj => set_alive hi hj⟩
  | send i =>
      obtain ⟨hi, rfl⟩ := step_send h
      exact ⟨⟨i, hi.alive⟩, fun j hj => set_alive hi.alive hj⟩

theorem spawn_alive {i : ℕ} (h : pool.spawn.Alive i) : i = pool.spawned ∨ pool.Alive i := by
  by_cases hi : i = pool.spawned
  · exact Or.inl hi
  · right
    have hother := set_other pool { pc := .start, sock := -1, taken := .zero } hi
    rw [Alive] at h ⊢
    rwa [← hother]

theorem spawn_workers_spawned (pool : Pool) : (pool.spawn.workers pool.spawned).pc = .start :=
  congrArg Worker.pc (set_same pool pool.spawned { pc := .start, sock := -1, taken := .zero })

-- a thread is bound to a socket once it has copied it
theorem step_bound {a : WorkerAct} (h : pool.step sh a = some pool')
    (hbound : ∀ i, pool.Alive i →
      (pool.workers i).pc = .start ∨ (pool.workers i).sock = sh.socket) (j : ℕ)
    (hj : pool'.Alive j) : (pool'.workers j).pc = .start ∨ (pool'.workers j).sock = sh.socket := by
  -- past its first statement, a thread that stays alive keeps its socket
  have hkeep : ∀ {i : ℕ} {pc : WorkerPc} {w : Worker}, (pool.workers i).pc = pc → pc ≠ .start →
      pc ≠ .exited → w.sock = (pool.workers i).sock → (pool.set i w).Alive j →
      ((pool.set i w).workers j).pc = .start ∨ ((pool.set i w).workers j).sock = sh.socket := by
    intro i pc w hpc hstart hexited hw hj
    have hi : pool.Alive i := by rw [Alive, hpc]; exact hexited
    by_cases hji : j = i
    · subst hji
      right
      rw [set_same, hw]
      exact (hbound j hi).resolve_left (by rw [hpc]; exact hstart)
    · rw [set_other pool w hji]
      exact hbound j (set_alive hi hj)
  cases a with
  | start i =>
      obtain ⟨hpc, rfl⟩ := step_start h
      by_cases hji : j = i
      · subst hji
        exact Or.inr (by rw [set_same])
      · have hi : pool.Alive i := by rw [Alive, hpc]; exact WorkerPc.noConfusion
        rw [set_other pool _ hji]
        exact hbound j (set_alive hi hj)
  | check i =>
      obtain ⟨hpc, rfl⟩ := step_check h
      exact hkeep hpc WorkerPc.noConfusion WorkerPc.noConfusion rfl hj
  | deque i =>
      obtain ⟨hpc, p, rest, _, rfl⟩ := step_deque h
      exact hkeep hpc WorkerPc.noConfusion WorkerPc.noConfusion rfl hj
  | send i =>
      obtain ⟨hpc, rfl⟩ := step_send h
      exact hkeep hpc WorkerPc.noConfusion WorkerPc.noConfusion rfl hj

-- a dequeue is logged with the socket of the thread that made it
theorem step_took {a : WorkerAct} (h : pool.step sh a = some pool') {sock accepted : ℤ}
    {st : SockState} (hmem : .took sock accepted st ∈ pool'.log) :
    .took sock accepted st ∈ pool.log ∨ ∃ i, a = .deque i ∧ (pool.workers i).pc = .deque ∧
      sock = (pool.workers i).sock ∧ accepted = sh.accepted ∧ st = sh.sockets sock := by
  cases a with
  | start i =>
      obtain ⟨_, rfl⟩ := step_start h
      exact Or.inl hmem
  | check i =>
      obtain ⟨_, rfl⟩ := step_check h
      exact Or.inl hmem
  | deque i =>
      obtain ⟨hpc, p, rest, _, rfl⟩ := step_deque h
      rcases List.mem_append.mp hmem with hold | hnew
      · exact Or.inl hold
      · have hevent := List.mem_singleton.mp hnew
        injection hevent with hsock haccepted hst
        exact Or.inr ⟨i, rfl, hpc, hsock, haccepted, by rw [hst, hsock]⟩
  | send i =>
      obtain ⟨_, rfl⟩ := step_send h
      rcases List.mem_append.mp hmem with hold | hnew
      · exact Or.inl hold
      · exact absurd (List.mem_singleton.mp hnew) WorkerEvent.noConfusion

end Alive

/-! ## One thread at a time between dequeue and send -/

/-- At most one thread holds a packet; it is the static packet, and that thread's socket is
connected.  So every packet sent so far was the one taken, over a connection. -/
structure Exclusive (sh : Shared) (pool : Pool) : Prop where
  one : ∀ i j, pool.Holds i → pool.Holds j → i = j
  data : ∀ i, pool.Holds i → (pool.workers i).taken = pool.simicsData
  connected : ∀ i, pool.Holds i → sh.sockets (pool.workers i).sock = .connected
  sent : ∀ taken buffer st, .sent taken buffer st ∈ pool.log →
    buffer = taken ∧ st = .connected

namespace Exclusive

variable {sh sh' : Shared} {pool pool' : Pool}

theorem empty (sh : Shared) (simicsData : SimicsTransaction) (pipe : List SimicsTransaction) :
    Exclusive sh (Pool.empty simicsData pipe) where
  one := fun _ _ hi => absurd rfl hi.alive
  data := fun _ hi => absurd rfl hi.alive
  connected := fun _ hi => absurd rfl hi.alive
  sent := fun _ _ _ h => absurd h List.not_mem_nil

-- the holder only looks at its own socket
theorem shared (h : Exclusive sh pool)
    (hsock : ∀ i, pool.Holds i → sh'.sockets (pool.workers i).sock = .connected) :
    Exclusive sh' pool :=
  ⟨h.one, h.data, hsock, h.sent⟩

theorem shared_of_none (h : Exclusive sh pool) (hnone : ∀ i, ¬ pool.Holds i) : Exclusive sh' pool :=
  h.shared fun i hi => absurd hi (hnone i)

-- a socket without a connection is no holder's
theorem sock_ne (h : Exclusive sh pool) {fd : ℤ} (hfd : sh.sockets fd ≠ .connected) {i : ℕ}
    (hi : pool.Holds i) : (pool.workers i).sock ≠ fd := by
  intro heq
  have hconn := h.connected i hi
  rw [heq] at hconn
  exact hfd hconn

theorem setSocket (h : Exclusive sh pool) (fd : ℤ) (st : SockState)
    (hfd : ∀ i, pool.Holds i → (pool.workers i).sock ≠ fd) :
    Exclusive (sh.setSocket fd st) pool := by
  refine h.shared fun i hi => ?_
  rw [sh.setSocket_other st (hfd i hi), h.connected i hi]

theorem set_quiet (h : Exclusive sh pool) (i : ℕ) {w : Worker} (hw : w.pc ≠ .forward) :
    Exclusive sh (pool.set i w) := by
  have hold : ∀ j, (pool.set i w).Holds j →
      pool.Holds j ∧ (pool.set i w).workers j = pool.workers j := by
    intro j hj
    by_cases hji : j = i
    · subst hji
      rw [Holds, set_same] at hj
      exact absurd hj hw
    · rw [Holds, set_other pool w hji] at hj
      exact ⟨hj, set_other pool w hji⟩
  refine ⟨fun j k hj hk => h.one j k (hold j hj).1 (hold k hk).1, fun j hj => ?_, fun j hj => ?_,
    h.sent⟩
  · rw [(hold j hj).2]
    exact h.data j (hold j hj).1
  · rw [(hold j hj).2]
    exact h.connected j (hold j hj).1

theorem spawn (h : Exclusive sh pool) : Exclusive sh pool.spawn := by
  have hq := h.set_quiet pool.spawned (w := { pc := .start, sock := -1, taken := .zero })
    WorkerPc.noConfusion
  exact ⟨hq.one, hq.data, hq.connected, hq.sent⟩

theorem enqueue (h : Exclusive sh pool) (p : SimicsTransaction) : Exclusive sh (pool.enqueue p) :=
  ⟨h.one, h.data, h.connected, h.sent⟩

/-- The step lemma: only the dequeue needs a condition. -/
theorem step (h : Exclusive sh pool) {a : WorkerAct} (hstep : pool.step sh a = some pool')
    (hdeque : ∀ i, a = .deque i →
      sh.sockets (pool.workers i).sock = .connected ∧ ∀ j, ¬ pool.Holds j) :
    Exclusive sh pool' := by
  cases a with
  | start i =>
      obtain ⟨_, rfl⟩ := step_start hstep
      exact h.set_quiet i WorkerPc.noConfusion
  | check i =>
      obtain ⟨_, rfl⟩ := step_check hstep
      apply h.set_quiet i
      dsimp only
      split <;> exact WorkerPc.noConfusion
  | deque i =>
      obtain ⟨_, p, rest, _, rfl⟩ := step_deque hstep
      obtain ⟨hconn, hnone⟩ := hdeque i rfl
      -- nobody held a packet, so the new holder is i
      have hold : ∀ j, (pool.set i { pool.workers i with pc := .forward, taken := p }).Holds j →
          j = i := by
        intro j hj
        by_contra hji
        rw [Holds, set_other pool _ hji] at hj
        exact hnone j hj
      have hsame := set_same pool i { pool.workers i with pc := .forward, taken := p }
      refine ⟨fun j k hj hk => (hold j hj).trans (hold k hk).symm, fun j hj => ?_, fun j hj => ?_,
        fun taken buffer st hmem => ?_⟩
      · have hji := hold j hj
        subst hji
        exact congrArg Worker.taken hsame
      · have hji := hold j hj
        subst hji
        have hsock := congrArg Worker.sock hsame
        exact (congrArg sh.sockets hsock).trans hconn
      · rcases List.mem_append.mp hmem with hold | hnew
        · exact h.sent taken buffer st hold
        · exact absurd (List.mem_singleton.mp hnew) WorkerEvent.noConfusion
  | send i =>
      obtain ⟨hi, rfl⟩ := step_send hstep
      have hq := h.set_quiet i (w := { pool.workers i with pc := .check }) WorkerPc.noConfusion
      refine ⟨hq.one, hq.data, hq.connected, fun taken buffer st hmem => ?_⟩
      rcases List.mem_append.mp hmem with hold | hnew
      · exact h.sent taken buffer st hold
      · have hevent := List.mem_singleton.mp hnew
        injection hevent with htaken hbuffer hst
        rw [htaken, hbuffer, hst]
        exact ⟨(h.data i hi).symm, h.connected i hi⟩

end Exclusive

end Pool

/-! ## The log -/

-- the packets that some thread dequeued and has passed to CXL_Send
def handled (log : List WorkerEvent) : List SimicsTransaction :=
  log.filterMap fun
    | .sent taken _ _ => some taken
    | .took _ _ _ => none

-- the packets that went out over a connection
def delivered (log : List WorkerEvent) : List SimicsTransaction :=
  log.filterMap fun
    | .sent _ buffer st => if st = .connected then some buffer else none
    | .took _ _ _ => none

theorem delivered_eq_handled {log : List WorkerEvent}
    (h : ∀ taken buffer st, .sent taken buffer st ∈ log → buffer = taken ∧ st = .connected) :
    delivered log = handled log := by
  refine List.filterMap_congr fun e he => ?_
  cases e with
  | took => rfl
  | sent taken buffer st =>
      obtain ⟨rfl, rfl⟩ := h taken buffer st he
      exact if_pos rfl

end SimConnect
