import SimConnect.NamedPipe

/-!
# The descriptors that named_pipe.c closes

A global holds an open descriptor of its pipe only between the `open` that filled it and the next
`close`; the functions close it in other states as well, and what they close then is whatever has
that number.
-/

open SimConnect.Foundation

namespace SimConnect.NamedPipe

/-! ## The process -/

/-- Who has a descriptor: an `open` of a pipe by these functions, or anything else. -/
inductive FdOwner
  | pipe (name : PipeName)
  | other
  deriving DecidableEq

structure CloseRecord where
  pipe : PipeName
  fd : ℤ
  owner : Option FdOwner

/-- `closed` are the closes so far, with the owner that the descriptor had at that moment. -/
structure PipeProcess where
  vars : PipeVars
  fds : Handles FdOwner
  closed : List CloseRecord

-- a process that has the descriptors of `inUse` open and has called none of the functions
def PipeProcess.start (inUse : ℕ → Bool) : PipeProcess where
  vars := .init
  fds := fun n => if inUse n then some .other else none
  closed := []

/-- The effect of a call on the process; an `open` gives a descriptor that is not in use. -/
def applyCall (s : PipeProcess) : PipeCall → Option PipeProcess
  | .mkfifo _ _ => some s
  | .open path (.ofNat n) =>
      if s.fds n = none then some { s with fds := s.fds.acquire n (.pipe path.pipe) } else none
  | .open _ (.negSucc _) => some s
  | .close pipe fd => some
      { s with
        fds := s.fds.release fd
        closed := s.closed ++ [{ pipe, fd, owner := s.fds.owner fd }] }

-- one function called, with the results of the system calls that it makes
structure PipeAct where
  fn : PipeFn
  os : Outcomes

def pipeStep (s : PipeProcess) (a : PipeAct) : Option PipeProcess :=
  let run := a.fn.run a.os s.vars
  (exec applyCall s run.calls).map fun s' => { s' with vars := run.vars }

def AllOwn (closed : List CloseRecord) : Prop := ∀ x ∈ closed, x.owner = some (.pipe x.pipe)

/-- Every close was of a descriptor that an open of its pipe had returned and that had not been
closed since, and everything else the process had open is open. -/
structure ClosesOwn (s₀ s : PipeProcess) : Prop where
  own : AllOwn s.closed
  others : ∀ n, s₀.fds n = some .other → s.fds n = some .other

/-! ## Closes of a list of calls -/

def OwnCalls : Handles FdOwner → List PipeCall → Prop
  | _, [] => True
  | t, .mkfifo _ _ :: cs => OwnCalls t cs
  | t, .open path (.ofNat n) :: cs => OwnCalls (t.acquire n (.pipe path.pipe)) cs
  | t, .open _ (.negSucc _) :: cs => OwnCalls t cs
  | t, .close pipe fd :: cs => t.owner fd = some (.pipe pipe) ∧ OwnCalls (t.release fd) cs

theorem allOwn_snoc (closed : List CloseRecord) (x : CloseRecord) :
    AllOwn (closed ++ [x]) ↔ AllOwn closed ∧ x.owner = some (.pipe x.pipe) := by
  rw [AllOwn, List.forall_mem_append, List.forall_mem_singleton, AllOwn]

theorem exec_own {s s' : PipeProcess} {cs : List PipeCall} (h : exec applyCall s cs = some s') :
    AllOwn s'.closed ↔ AllOwn s.closed ∧ OwnCalls s.fds cs := by
  induction cs generalizing s with
  | nil =>
      rw [← Option.some.inj h]
      exact (and_iff_left trivial).symm
  | cons c cs ih =>
      obtain ⟨s₁, hcall, hrest⟩ := Option.bind_eq_some_iff.mp h
      rw [ih hrest]
      cases c with
      | mkfifo path r =>
          rw [← Option.some.inj hcall]
          rfl
      | «open» path fd =>
          cases fd with
          | ofNat n =>
              change (if s.fds n = none then _ else none) = some s₁ at hcall
              by_cases hfree : s.fds n = none
              · rw [if_pos hfree] at hcall
                rw [← Option.some.inj hcall]
                rfl
              · rw [if_neg hfree] at hcall
                cases hcall
          | negSucc n =>
              rw [← Option.some.inj hcall]
              rfl
      | close pipe fd =>
          rw [← Option.some.inj hcall]
          change AllOwn (s.closed ++ [_]) ∧ _ ↔ _
          rw [allOwn_snoc, and_assoc]
          rfl

-- as long as every close is one of these, the other descriptors stay
theorem exec_others {s s' : PipeProcess} {cs : List PipeCall} (h : exec applyCall s cs = some s')
    (hown : OwnCalls s.fds cs) {n : ℕ} (hn : s.fds n = some .other) : s'.fds n = some .other := by
  induction cs generalizing s with
  | nil =>
      rw [← Option.some.inj h]
      exact hn
  | cons c cs ih =>
      obtain ⟨s₁, hcall, hrest⟩ := Option.bind_eq_some_iff.mp h
      cases c with
      | mkfifo path r =>
          rw [← Option.some.inj hcall] at hrest
          exact ih hrest hown hn
      | «open» path fd =>
          cases fd with
          | ofNat m =>
              change (if s.fds m = none then _ else none) = some s₁ at hcall
              by_cases hfree : s.fds m = none
              · rw [if_pos hfree] at hcall
                rw [← Option.some.inj hcall] at hrest
                have hne : n ≠ m := by
                  intro heq
                  rw [heq, hfree] at hn
                  cases hn
                exact ih hrest hown ((Handles.acquire_of_ne hne).trans hn)
              · rw [if_neg hfree] at hcall
                cases hcall
          | negSucc m =>
              rw [← Option.some.inj hcall] at hrest
              exact ih hrest hown hn
      | close pipe fd =>
          rw [← Option.some.inj hcall] at hrest
          exact ih hrest hown.2 (Handles.release_of_owner hown.1 hn (by simp))

theorem ownCalls_closeAll {pipes : List PipeName} (hpipes : pipes.Nodup) (vars : PipeVars)
    (t : Handles FdOwner) :
    OwnCalls t (closeAll pipes vars) ↔ ∀ q ∈ pipes, t.owner (vars q) = some (.pipe q) := by
  have hreleases : ∀ (pipes : List PipeName) (t : Handles FdOwner),
      OwnCalls t (closeAll pipes vars) ↔
        OwnReleases t (pipes.map fun q => (FdOwner.pipe q, vars q)) := by
    intro pipes
    induction pipes with
    | nil => exact fun t => Iff.rfl
    | cons q pipes ih => exact fun t => and_congr_right fun _ => ih (t.release (vars q))
  have hnodup : ((pipes.map fun q => (FdOwner.pipe q, vars q)).map Prod.fst).Nodup := by
    rw [List.map_map]
    refine hpipes.map ?_
    intro a b hab
    exact FdOwner.pipe.inj hab
  rw [hreleases, ownReleases_iff hnodup, List.forall_mem_map]

/-! ## When the closes of a function are right -/

-- the mkfifo of `pipe` is reached and fails with an errno other than EEXIST
def Outcomes.FailsAt (os : Outcomes) (before : List PipeName) (pipe : PipeName) : Prop :=
  os.serverPath ≠ none ∧ (∀ q ∈ before, os.mkfifo q ≠ .failed) ∧ os.mkfifo pipe = .failed

-- an open of `pipe` has returned `fd`, and it has not been closed since
def PipeProcess.Held (s : PipeProcess) (pipe : PipeName) (fd : ℤ) : Prop :=
  s.fds.owner fd = some (.pipe pipe)

def PipeProcess.HoldsVar (s : PipeProcess) (pipe : PipeName) : Prop := s.Held pipe (s.vars pipe)

-- mkfifo has just left 0 in the global, and 0 happens to be an open descriptor of the pipe
def PipeProcess.HoldsZero (s : PipeProcess) (os : Outcomes) (pipe : PipeName) : Prop :=
  os.mkfifo pipe = .created ∧ s.Held pipe 0

/-- The condition on a call: what it is going to close is held at that moment. -/
def ClosesHeld (s : PipeProcess) (a : PipeAct) : Prop :=
  match a.fn with
  | .initClientFifo =>
      a.os.FailsAt [.requestClient] .replyClient → s.HoldsZero a.os .requestClient
  | .initServerFifo =>
      (a.os.FailsAt [] .requestServer → s.HoldsVar .requestClient ∧ s.HoldsVar .replyClient) ∧
      (a.os.FailsAt [.requestServer] .replyServer →
        s.HoldsVar .requestClient ∧ s.HoldsVar .replyClient ∧ s.HoldsZero a.os .requestServer)
  | .initNamedFifo =>
      (a.os.FailsAt [.requestClient] .replyClient → s.HoldsZero a.os .requestClient) ∧
      ¬ a.os.FailsAt [.requestClient, .replyClient] .requestServer ∧
      ¬ a.os.FailsAt [.requestClient, .replyClient, .requestServer] .replyServer
  | .openClientPipe => True
  | .openServerPipe => True
  | .closeClientPipe =>
      (0 ≤ s.vars .requestClient → s.HoldsVar .requestClient) ∧
      (0 ≤ s.vars .replyClient → s.HoldsVar .replyClient)
  | .closeNamedFifo => ∀ pipe, s.HoldsVar pipe

section Functions

variable {t : Handles FdOwner} {os : Outcomes} {dir : String} {vars : PipeVars}

theorem owner_ret_iff (r : MkfifoResult) (pipe : PipeName) :
    t.owner r.ret = some (.pipe pipe) ↔ r = .created ∧ t.owner 0 = some (.pipe pipe) := by
  -- no descriptor is -1
  have hnone : t.owner (-1) ≠ some (.pipe pipe) := fun h => Option.some_ne_none _ h.symm
  cases r with
  | created => exact (and_iff_right rfl).symm
  | eexist => exact iff_of_false hnone (by simp)
  | failed => exact iff_of_false hnone (by simp)

theorem mkfifoChain_failed {link : Link} {links : List Link}
    (hfailed : os.mkfifo link.pipe = .failed)
    (hcloses : link.closes.Nodup) (hother : link.pipe ∉ link.closes) :
    OwnCalls t (mkfifoChain os dir (link :: links) vars).calls ↔
      ∀ q ∈ link.closes, t.owner (vars q) = some (.pipe q) := by
  rw [mkfifoChain, if_pos hfailed]
  change OwnCalls t (closeAll link.closes _) ↔ _
  rw [ownCalls_closeAll hcloses]
  refine forall₂_congr fun q hq => ?_
  have hne : q ≠ link.pipe := fun h => hother (h ▸ hq)
  rw [Function.update_of_ne hne]

theorem mkfifoChain_next {link : Link} {links : List Link} (hfailed : os.mkfifo link.pipe ≠ .failed)
    (hexists : link.existsOk = true) :
    OwnCalls t (mkfifoChain os dir (link :: links) vars).calls ↔
      OwnCalls t (mkfifoChain os dir links
        (Function.update vars link.pipe (os.mkfifo link.pipe).ret)).calls := by
  have hgo : ¬ (os.mkfifo link.pipe = .eexist ∧ (!link.existsOk) = true) := by
    rw [hexists]
    simp
  rw [mkfifoChain, if_neg hfailed, if_neg hgo]
  rfl

theorem mkfifoChain_last {link : Link} (hfailed : os.mkfifo link.pipe ≠ .failed) :
    OwnCalls t (mkfifoChain os dir [link] vars).calls := by
  rw [mkfifoChain, if_neg hfailed]
  by_cases hstop : os.mkfifo link.pipe = .eexist ∧ (!link.existsOk) = true
  · rw [if_pos hstop]
    trivial
  · rw [if_neg hstop]
    trivial

-- the first two links, with the rest of the chain after them
theorem ownCalls_clientLinks (links : List Link) :
    OwnCalls t (mkfifoChain os dir (clientLinks ++ links) vars).calls ↔
      os.mkfifo .requestClient ≠ .failed →
        if os.mkfifo .replyClient = .failed then
          os.mkfifo .requestClient = .created ∧ t.owner 0 = some (.pipe .requestClient)
        else OwnCalls t (mkfifoChain os dir links
          (Function.update (Function.update vars .requestClient (os.mkfifo .requestClient).ret)
            .replyClient (os.mkfifo .replyClient).ret)).calls := by
  change OwnCalls t (mkfifoChain os dir (_ :: _ :: links) vars).calls ↔ _
  by_cases hrequest : os.mkfifo .requestClient = .failed
  · rw [mkfifoChain_failed hrequest List.nodup_nil List.not_mem_nil]
    exact iff_of_true (fun q hq => absurd hq List.not_mem_nil) fun h => absurd hrequest h
  · rw [mkfifoChain_next hrequest rfl]
    by_cases hreply : os.mkfifo .replyClient = .failed
    · rw [mkfifoChain_failed hreply (List.nodup_singleton _) (by decide), if_pos hreply,
        List.forall_mem_singleton, Function.update_self, owner_ret_iff]
      exact ⟨fun h _ => h, fun h => h hrequest⟩
    · rw [mkfifoChain_next hreply rfl, if_neg hreply]
      exact ⟨fun h _ => h, fun h => h hrequest⟩

theorem ownCalls_serverLinks :
    OwnCalls t (mkfifoChain os dir serverLinks vars).calls ↔
      if os.mkfifo .requestServer = .failed then
        t.owner (vars .requestClient) = some (.pipe .requestClient) ∧
          t.owner (vars .replyClient) = some (.pipe .replyClient)
      else os.mkfifo .replyServer = .failed →
        t.owner (vars .requestClient) = some (.pipe .requestClient) ∧
          t.owner (vars .replyClient) = some (.pipe .replyClient) ∧
          os.mkfifo .requestServer = .created ∧ t.owner 0 = some (.pipe .requestServer) := by
  unfold serverLinks
  by_cases hrequest : os.mkfifo .requestServer = .failed
  · rw [mkfifoChain_failed hrequest (by decide) (by decide), if_pos hrequest, List.forall_mem_cons,
      List.forall_mem_singleton]
  · rw [mkfifoChain_next hrequest rfl, if_neg hrequest]
    by_cases hreply : os.mkfifo .replyServer = .failed
    · rw [mkfifoChain_failed hreply (by decide) (by decide), List.forall_mem_cons,
        List.forall_mem_cons, List.forall_mem_singleton, Function.update_self, owner_ret_iff,
        Function.update_of_ne (by decide), Function.update_of_ne (by decide)]
      exact ⟨fun h _ => h, fun h => h hreply⟩
    · exact iff_of_true (mkfifoChain_last hreply) fun h => absurd h hreply

theorem ownCalls_client :
    OwnCalls t (mkfifoChain os dir clientLinks vars).calls ↔
      (os.mkfifo .requestClient ≠ .failed → os.mkfifo .replyClient = .failed →
        os.mkfifo .requestClient = .created ∧ t.owner 0 = some (.pipe .requestClient)) := by
  rw [show clientLinks = clientLinks ++ [] from rfl, ownCalls_clientLinks]
  refine forall_congr' fun _ => ?_
  by_cases hreply : os.mkfifo .replyClient = .failed
  · rw [if_pos hreply]
    exact ⟨fun h _ => h, fun h => h hreply⟩
  · rw [if_neg hreply]
    exact iff_of_true trivial fun h => absurd h hreply

-- 0 cannot be a descriptor of two pipes, so the last two links close something else when they fail
theorem ownCalls_named :
    OwnCalls t (mkfifoChain os dir (clientLinks ++ serverLinks) vars).calls ↔
      (os.mkfifo .requestClient ≠ .failed →
        if os.mkfifo .replyClient = .failed then
          os.mkfifo .requestClient = .created ∧ t.owner 0 = some (.pipe .requestClient)
        else os.mkfifo .requestServer ≠ .failed ∧ os.mkfifo .replyServer ≠ .failed) := by
  rw [ownCalls_clientLinks]
  refine forall_congr' fun _ => ?_
  by_cases hreply : os.mkfifo .replyClient = .failed
  · rw [if_pos hreply, if_pos hreply]
  · rw [if_neg hreply, if_neg hreply, ownCalls_serverLinks, Function.update_self,
      Function.update_of_ne (by decide), Function.update_self, owner_ret_iff, owner_ret_iff]
    have hclash : ∀ p q : Prop, ¬ ((p ∧ t.owner 0 = some (.pipe .requestClient)) ∧
        q ∧ t.owner 0 = some (.pipe .replyClient)) := by
      rintro p q ⟨⟨_, hfirst⟩, _, hsecond⟩
      rw [hfirst] at hsecond
      cases hsecond
    by_cases hrequest : os.mkfifo .requestServer = .failed
    · rw [if_pos hrequest]
      exact iff_of_false (hclash _ _) fun h => h.1 hrequest
    · rw [if_neg hrequest]
      constructor
      · intro h
        refine ⟨hrequest, fun hfails => ?_⟩
        obtain ⟨hfirst, hsecond, _⟩ := h hfails
        exact hclash _ _ ⟨hfirst, hsecond⟩
      · intro h hfails
        exact absurd hfails h.2

-- an open that fails closes what has just been opened
theorem ownCalls_openChain {first second : PipeName} (hne : first ≠ second) :
    OwnCalls t (openChain os dir
      [{ pipe := first, closes := [], existsOk := true },
       { pipe := second, closes := [first], existsOk := true }] vars).calls := by
  rw [openChain]
  dsimp only
  by_cases hfirst : os.openFd first < 0
  · obtain ⟨n, hn⟩ := Int.eq_negSucc_of_lt_zero hfirst
    rw [if_pos hfirst, hn]
    trivial
  · obtain ⟨n, hn⟩ := Int.eq_ofNat_of_zero_le (Int.not_lt.mp hfirst)
    rw [if_neg hfirst, openChain]
    dsimp only
    by_cases hsecond : os.openFd second < 0
    · obtain ⟨m, hm⟩ := Int.eq_negSucc_of_lt_zero hsecond
      rw [if_pos hsecond]
      change OwnCalls t (_ :: _ :: closeAll [first] _)
      rw [hn, hm]
      change OwnCalls (t.acquire n (.pipe first)) (closeAll [first] _)
      rw [ownCalls_closeAll (List.nodup_singleton _), List.forall_mem_singleton,
        Function.update_of_ne hne, Function.update_self]
      exact Handles.owner_acquire_self
    · obtain ⟨m, hm⟩ := Int.eq_ofNat_of_zero_le (Int.not_lt.mp hsecond)
      rw [if_neg hsecond]
      change OwnCalls t [_, _]
      rw [hn, hm]
      trivial

theorem withServerPath_iff {run : String → PipeRun} {P : Prop}
    (h : ∀ p, OwnCalls t (run p).calls ↔ P) :
    OwnCalls t (withServerPath os vars run).calls ↔ (os.serverPath ≠ none → P) := by
  unfold withServerPath
  cases os.serverPath with
  | none => exact iff_of_true trivial fun hset => absurd rfl hset
  | some p => exact (h p).trans ⟨fun hP _ => hP, fun hP => hP (Option.some_ne_none p)⟩

end Functions

section Step

variable {s s' : PipeProcess} {os : Outcomes}

theorem ownCalls_initClientFifo :
    OwnCalls s.fds (initClientFifo os s.vars).calls ↔ ClosesHeld s ⟨.initClientFifo, os⟩ := by
  unfold initClientFifo
  rw [withServerPath_iff fun p => ownCalls_client]
  constructor
  · intro h hfails
    exact h hfails.1 (hfails.2.1 _ List.mem_cons_self) hfails.2.2
  · intro h hpath hrequest hreply
    exact h ⟨hpath, List.forall_mem_singleton.mpr hrequest, hreply⟩

theorem ownCalls_initServerFifo :
    OwnCalls s.fds (initServerFifo os s.vars).calls ↔ ClosesHeld s ⟨.initServerFifo, os⟩ := by
  unfold initServerFifo
  rw [withServerPath_iff fun p => ownCalls_serverLinks]
  constructor
  · intro h
    constructor
    · intro hfails
      have hheld := h hfails.1
      rwa [if_pos hfails.2.2] at hheld
    · intro hfails
      have hheld := h hfails.1
      rw [if_neg (hfails.2.1 _ List.mem_cons_self)] at hheld
      exact hheld hfails.2.2
  · rintro ⟨hfirst, hsecond⟩ hpath
    by_cases hrequest : os.mkfifo .requestServer = .failed
    · rw [if_pos hrequest]
      exact hfirst ⟨hpath, fun q hq => absurd hq List.not_mem_nil, hrequest⟩
    · rw [if_neg hrequest]
      intro hreply
      exact hsecond ⟨hpath, List.forall_mem_singleton.mpr hrequest, hreply⟩

theorem ownCalls_initNamedFifo :
    OwnCalls s.fds (initNamedFifo os s.vars).calls ↔ ClosesHeld s ⟨.initNamedFifo, os⟩ := by
  unfold initNamedFifo
  rw [withServerPath_iff fun p => ownCalls_named]
  constructor
  · intro h
    refine ⟨fun hfails => ?_, fun hfails => ?_, fun hfails => ?_⟩
    · have hzero := h hfails.1 (hfails.2.1 _ List.mem_cons_self)
      rwa [if_pos hfails.2.2] at hzero
    · have hserver := h hfails.1 (hfails.2.1 _ List.mem_cons_self)
      rw [if_neg (hfails.2.1 .replyClient (by simp))] at hserver
      exact hserver.1 hfails.2.2
    · have hserver := h hfails.1 (hfails.2.1 _ List.mem_cons_self)
      rw [if_neg (hfails.2.1 .replyClient (by simp))] at hserver
      exact hserver.2 hfails.2.2
  · rintro ⟨hclient, hrequest, hreply⟩ hpath hfirst
    by_cases hsecond : os.mkfifo .replyClient = .failed
    · rw [if_pos hsecond]
      exact hclient ⟨hpath, List.forall_mem_singleton.mpr hfirst, hsecond⟩
    · rw [if_neg hsecond]
      have hthird : os.mkfifo .requestServer ≠ .failed := fun hthird =>
        hrequest ⟨hpath, List.forall_mem_cons.mpr ⟨hfirst, List.forall_mem_singleton.mpr hsecond⟩,
          hthird⟩
      refine ⟨hthird, fun hfourth => hreply ⟨hpath, ?_, hfourth⟩⟩
      exact List.forall_mem_cons.mpr ⟨hfirst, List.forall_mem_cons.mpr
        ⟨hsecond, List.forall_mem_singleton.mpr hthird⟩⟩

theorem ownCalls_closeNamedFifo :
    OwnCalls s.fds (closeNamedFifo s.vars).calls ↔ ClosesHeld s ⟨.closeNamedFifo, os⟩ := by
  unfold closeNamedFifo
  rw [ownCalls_closeAll (by decide)]
  constructor
  · intro h pipe
    exact h pipe (by cases pipe <;> decide)
  · intro h pipe _
    exact h pipe

theorem ownCalls_closeClientPipe :
    OwnCalls s.fds (closeClientPipe s.vars).calls ↔ ClosesHeld s ⟨.closeClientPipe, os⟩ := by
  have hall : closeAll (if 0 ≤ s.vars .requestClient then [.requestClient] else []) s.vars ++
      closeAll (if 0 ≤ s.vars .replyClient then [.replyClient] else []) s.vars =
      closeAll ((if 0 ≤ s.vars .requestClient then [.requestClient] else []) ++
        if 0 ≤ s.vars .replyClient then [.replyClient] else []) s.vars :=
    List.map_append.symm
  unfold closeClientPipe
  rw [hall, ownCalls_closeAll, List.forall_mem_append]
  · have hif : ∀ pipe : PipeName, (∀ q ∈ if 0 ≤ s.vars pipe then [pipe] else [],
        s.fds.owner (s.vars q) = some (.pipe q)) ↔ (0 ≤ s.vars pipe → s.HoldsVar pipe) := by
      intro pipe
      by_cases hpipe : 0 ≤ s.vars pipe
      · rw [if_pos hpipe, List.forall_mem_singleton]
        exact ⟨fun h _ => h, fun h => h hpipe⟩
      · rw [if_neg hpipe]
        exact iff_of_true (fun q hq => absurd hq List.not_mem_nil) fun h => absurd h hpipe
    exact and_congr (hif _) (hif _)
  · by_cases hrequest : 0 ≤ s.vars .requestClient
    · by_cases hreply : 0 ≤ s.vars .replyClient
      · simp [hrequest, hreply]
      · simp [hrequest, hreply]
    · by_cases hreply : 0 ≤ s.vars .replyClient
      · simp [hrequest, hreply]
      · simp [hrequest, hreply]

/-- The closes of a call are right exactly when the condition on it holds. -/
theorem ownCalls_iff (s : PipeProcess) (a : PipeAct) :
    OwnCalls s.fds (a.fn.run a.os s.vars).calls ↔ ClosesHeld s a := by
  obtain ⟨fn, os⟩ := a
  have hopen : ∀ first second : PipeName, first ≠ second →
      OwnCalls s.fds (withServerPath os s.vars fun p => openChain os p
        [{ pipe := first, closes := [], existsOk := true },
         { pipe := second, closes := [first], existsOk := true }] s.vars).calls :=
    fun first second hne =>
      (withServerPath_iff (P := True) fun p => iff_true_intro (ownCalls_openChain hne)).mpr
        fun _ => trivial
  cases fn with
  | initClientFifo => exact ownCalls_initClientFifo
  | initServerFifo => exact ownCalls_initServerFifo
  | initNamedFifo => exact ownCalls_initNamedFifo
  | openClientPipe => exact iff_of_true (hopen .requestClient .replyClient (by decide)) trivial
  | openServerPipe => exact iff_of_true (hopen .requestServer .replyServer (by decide)) trivial
  | closeClientPipe => exact ownCalls_closeClientPipe
  | closeNamedFifo => exact ownCalls_closeNamedFifo

end Step

/-! ## Runs -/

section Run

variable {s s' : PipeProcess} {a : PipeAct}

theorem pipeStep_own (h : pipeStep s a = some s') :
    AllOwn s'.closed ↔ AllOwn s.closed ∧ ClosesHeld s a := by
  obtain ⟨s₁, hcalls, rfl⟩ := Option.map_eq_some_iff.mp h
  rw [← ownCalls_iff]
  have hown := exec_own hcalls
  exact hown

theorem pipeStep_others (h : pipeStep s a = some s') (hheld : ClosesHeld s a) {n : ℕ}
    (hn : s.fds n = some .other) : s'.fds n = some .other := by
  obtain ⟨s₁, hcalls, rfl⟩ := Option.map_eq_some_iff.mp h
  exact exec_others hcalls ((ownCalls_iff s a).mpr hheld) hn

theorem run_others {as : List PipeAct} (h : exec pipeStep s as = some s')
    (hheld : okAlong pipeStep ClosesHeld s as) {n : ℕ} (hn : s.fds n = some .other) :
    s'.fds n = some .other := by
  induction as generalizing s with
  | nil =>
      rw [← Option.some.inj h]
      exact hn
  | cons a as ih =>
      obtain ⟨t, hs, hrest⟩ := Option.bind_eq_some_iff.mp h
      obtain ⟨ha, hlater⟩ := hheld
      rw [hs] at hlater
      exact ih hrest hlater (pipeStep_others hs ha hn)

end Run

/-- From any descriptor table, a run of the seven functions closes only descriptors of their own
exactly when every call of it meets its condition. -/
theorem closes_own_iff (inUse : ℕ → Bool) {as : List PipeAct} {s : PipeProcess}
    (h : exec pipeStep (.start inUse) as = some s) :
    ClosesOwn (.start inUse) s ↔ okAlong pipeStep ClosesHeld (.start inUse) as := by
  have hown := exec_iff_okAlong (G := fun s => AllOwn s.closed)
    (fun _ _ _ hstep => pipeStep_own hstep) h
  have hnone : AllOwn (PipeProcess.start inUse).closed := fun x hx => absurd hx List.not_mem_nil
  constructor
  · intro hcloses
    exact (hown.mp hcloses.own).2
  · intro hheld
    exact ⟨hown.mpr ⟨hnone, hheld⟩, fun n hn => run_others h hheld hn⟩

-- standard input, output and error
def standardFds (n : ℕ) : Bool := decide (n < 3)

-- both opens succeed, with the next two descriptors
def openOutcomes : Outcomes where
  serverPath := some "relay"
  mkfifo := fun _ => .eexist
  openFd := fun pipe => if pipe = .requestClient then 3 else 4

def openThenClose : List PipeAct :=
  [⟨.openClientPipe, openOutcomes⟩, ⟨.closeClientPipe, openOutcomes⟩]

theorem openThenClose_own : ∃ s, exec pipeStep (.start standardFds) openThenClose = some s ∧
    ClosesOwn (.start standardFds) s := by
  obtain ⟨s, hs⟩ : ∃ s, exec pipeStep (.start standardFds) openThenClose = some s :=
    Option.isSome_iff_exists.mp rfl
  refine ⟨s, hs, (closes_own_iff standardFds hs).mpr ?_⟩
  exact ⟨trivial, ⟨fun _ => rfl, fun _ => rfl⟩, trivial⟩

/-- Before any open both client globals are 0, and closing them closes standard input. -/
theorem close_before_open_hits_stdin :
    ¬ ∀ (inUse : ℕ → Bool) (as : List PipeAct) (s : PipeProcess),
      exec pipeStep (.start inUse) as = some s → ClosesOwn (.start inUse) s := by
  intro h
  have hcloses := h standardFds [⟨.closeClientPipe, openOutcomes⟩] _ rfl
  have hstdin := hcloses.others 0 rfl
  exact absurd hstdin (by decide)

end SimConnect.NamedPipe
