import SimConnect.NamedPipe

/-!
# The pipes that named_pipe.c creates

The file system is the set of the pipe paths that exist.  A `mkfifo` needs an absent path to create
it and a present one to fail with `EEXIST`; with any other errno it fails on either.
-/

open SimConnect.Foundation

namespace SimConnect

deriving instance DecidableEq for PipePath

namespace NamedPipe

/-! ## Files -/

abbrev PipeFiles := PipePath → Bool

-- the effect of a call on the file system; `none` where the call cannot have that result
def applyFile (files : PipeFiles) : PipeCall → Option PipeFiles
  | .mkfifo path .created =>
      if files path then none else some (Function.update files path true)
  | .mkfifo path .eexist => if files path then some files else none
  | .mkfifo _ .failed => some files
  | .open _ _ => some files
  | .close _ _ => some files

theorem exec_closeAll (files : PipeFiles) (pipes : List PipeName) (vars : PipeVars) :
    exec applyFile files (closeAll pipes vars) = some files := by
  induction pipes with
  | nil => rfl
  | cons pipe pipes ih => exact ih

theorem applyFile_created {files files' : PipeFiles} {path : PipePath}
    (h : applyFile files (.mkfifo path .created) = some files') :
    files path = false ∧ files' = Function.update files path true := by
  change (if files path then none else _) = _ at h
  by_cases hpath : files path
  · rw [if_pos hpath] at h
    cases h
  · rw [if_neg hpath] at h
    exact ⟨Bool.of_not_eq_true hpath, (Option.some.inj h).symm⟩

theorem applyFile_eexist {files files' : PipeFiles} {path : PipePath}
    (h : applyFile files (.mkfifo path .eexist) = some files') :
    files path = true ∧ files' = files := by
  change (if files path then _ else none) = _ at h
  by_cases hpath : files path
  · rw [if_pos hpath] at h
    exact ⟨hpath, (Option.some.inj h).symm⟩
  · rw [if_neg hpath] at h
    cases h

-- a `mkfifo` that does not fail leaves its pipe there and the others as they were
theorem applyFile_mkfifo {files files' : PipeFiles} {path : PipePath} {r : MkfifoResult}
    (h : applyFile files (.mkfifo path r) = some files') (hr : r ≠ .failed) :
    files' = Function.update files path true := by
  cases r with
  | created => exact (applyFile_created h).2
  | eexist =>
      obtain ⟨hpath, hsame⟩ := applyFile_eexist h
      rw [hsame, ← hpath, Function.update_eq_self]
  | failed => exact absurd rfl hr

-- no call removes a pipe
theorem applyFile_keeps {files files' : PipeFiles} {call : PipeCall}
    (h : applyFile files call = some files') {path : PipePath} (hpath : files path = true) :
    files' path = true := by
  cases call with
  | mkfifo made r =>
      by_cases hr : r = .failed
      · rw [hr] at h
        rw [← Option.some.inj h, hpath]
      · rw [applyFile_mkfifo h hr, Function.update_apply]
        by_cases heq : path = made
        · rw [if_pos heq]
        · rw [if_neg heq, hpath]
  | «open» _ _ => rw [← Option.some.inj h, hpath]
  | close _ _ => rw [← Option.some.inj h, hpath]

theorem exec_keeps {files files' : PipeFiles} {calls : List PipeCall}
    (h : exec applyFile files calls = some files') {path : PipePath} (hpath : files path = true) :
    files' path = true :=
  exec_invariant (I := fun files => files path = true)
    (fun _ _ _ hthere hcall => applyFile_keeps hcall hthere) hpath h

/-! ## Chains of creations -/

def AllThere (files : PipeFiles) (dir : String) (pipes : List PipeName) : Prop :=
  ∀ pipe ∈ pipes, files { dir, pipe } = true

/-- What has to hold before a chain for its result to say whether the pipes are there: a pipe whose
link returns -1 on `EEXIST` is not there yet, and where a `mkfifo` fails with another errno, its
pipe or a later one is missing. -/
def OrderlyChain (files : PipeFiles) (dir : String) (mkfifo : PipeName → MkfifoResult) :
    List Link → Prop
  | [] => True
  | link :: links =>
      if mkfifo link.pipe = .failed then
        ∃ l ∈ link :: links, files { dir, pipe := l.pipe } = false
      else
        (link.existsOk = false → files { dir, pipe := link.pipe } = false) ∧
          OrderlyChain files dir mkfifo links

-- a link that returns -1 on `EEXIST` ends its chain
def StopsLast : List Link → Prop
  | [] => True
  | link :: links => (link.existsOk = false → links = []) ∧ StopsLast links

-- only the pipes of the chain matter
theorem orderlyChain_congr {files files' : PipeFiles} {dir : String}
    {mkfifo : PipeName → MkfifoResult} {links : List Link}
    (h : ∀ l ∈ links, files' { dir, pipe := l.pipe } = files { dir, pipe := l.pipe }) :
    OrderlyChain files' dir mkfifo links ↔ OrderlyChain files dir mkfifo links := by
  induction links with
  | nil => exact Iff.rfl
  | cons link links ih =>
      have hlink := h link (List.mem_cons_self ..)
      have hlinks : ∀ l ∈ links, files' { dir, pipe := l.pipe } = files { dir, pipe := l.pipe } :=
        fun l hl => h l (List.mem_cons_of_mem _ hl)
      unfold OrderlyChain
      by_cases hfail : mkfifo link.pipe = .failed
      · rw [if_pos hfail, if_pos hfail]
        apply exists_congr
        intro l
        apply and_congr_right
        intro hl
        rw [h l hl]
      · rw [if_neg hfail, if_neg hfail, hlink, ih hlinks]

section Chain

variable {os : Outcomes} {dir : String} {files files' : PipeFiles}

-- the three ways a chain goes on from its first link
theorem mkfifoChain_stopFailed {link : Link} (links : List Link) (vars : PipeVars)
    (h : os.mkfifo link.pipe = .failed)
    (hexec : exec applyFile files (mkfifoChain os dir (link :: links) vars).calls = some files') :
    (mkfifoChain os dir (link :: links) vars).ret = -1 ∧ files' = files := by
  unfold mkfifoChain at hexec ⊢
  simp only [h, if_true] at hexec ⊢
  refine ⟨trivial, ?_⟩
  have hclose : exec applyFile files (closeAll link.closes _) = some files' := hexec
  rw [exec_closeAll] at hclose
  exact (Option.some.inj hclose).symm

theorem mkfifoChain_stopEexist {link : Link} (links : List Link) (vars : PipeVars)
    (h : os.mkfifo link.pipe = .eexist) (hstop : link.existsOk = false)
    (hexec : exec applyFile files (mkfifoChain os dir (link :: links) vars).calls = some files') :
    (mkfifoChain os dir (link :: links) vars).ret = -1 ∧ files' = files ∧
      files { dir, pipe := link.pipe } = true := by
  unfold mkfifoChain at hexec ⊢
  simp only [h, hstop, Bool.not_false, reduceCtorEq, if_false, and_self, if_true] at hexec ⊢
  obtain ⟨files₁, hcall, hrest⟩ := Option.bind_eq_some_iff.mp hexec
  have hend : files₁ = files' := Option.some.inj hrest
  obtain ⟨hpath, hsame⟩ := applyFile_eexist hcall
  exact ⟨trivial, hend.symm.trans hsame, hpath⟩

theorem mkfifoChain_goesOn {link : Link} (links : List Link) (vars : PipeVars)
    (h : os.mkfifo link.pipe ≠ .failed)
    (hgo : os.mkfifo link.pipe = .eexist → link.existsOk = true)
    (hexec : exec applyFile files (mkfifoChain os dir (link :: links) vars).calls = some files') :
    ∃ vars', (mkfifoChain os dir (link :: links) vars).ret = (mkfifoChain os dir links vars').ret ∧
      (link.existsOk = false → files { dir, pipe := link.pipe } = false) ∧
      exec applyFile (Function.update files { dir, pipe := link.pipe } true)
        (mkfifoChain os dir links vars').calls = some files' := by
  have hnot : ¬(os.mkfifo link.pipe = .eexist ∧ (!link.existsOk) = true) := by
    intro hstop
    have hok := hgo hstop.1
    rw [hok] at hstop
    exact absurd hstop.2 (by decide)
  refine ⟨Function.update vars link.pipe (os.mkfifo link.pipe).ret, ?_⟩
  unfold mkfifoChain at hexec
  rw [if_neg h, if_neg hnot] at hexec
  obtain ⟨files₁, hcall, hrest⟩ := Option.bind_eq_some_iff.mp hexec
  have hnew : link.existsOk = false → files { dir, pipe := link.pipe } = false := by
    intro hoff
    cases hr : os.mkfifo link.pipe with
    | created =>
        rw [hr] at hcall
        exact (applyFile_created hcall).1
    | eexist => exact absurd ⟨hr, by rw [hoff]; rfl⟩ hnot
    | failed => exact absurd hr h
  rw [applyFile_mkfifo hcall h] at hrest
  refine ⟨?_, hnew, hrest⟩
  rw [mkfifoChain, if_neg h, if_neg hnot]
  rfl

-- a chain that returns 0 leaves all its pipes there
theorem mkfifoChain_allThere {links : List Link} {vars : PipeVars}
    (hexec : exec applyFile files (mkfifoChain os dir links vars).calls = some files')
    (hret : (mkfifoChain os dir links vars).ret = 0) :
    AllThere files' dir (links.map Link.pipe) := by
  induction links generalizing files vars with
  | nil =>
      intro pipe hpipe
      cases hpipe
  | cons link links ih =>
      by_cases hfail : os.mkfifo link.pipe = .failed
      · rw [(mkfifoChain_stopFailed links vars hfail hexec).1] at hret
        exact absurd hret (by decide)
      by_cases hstop : os.mkfifo link.pipe = .eexist ∧ link.existsOk = false
      · rw [(mkfifoChain_stopEexist links vars hstop.1 hstop.2 hexec).1] at hret
        exact absurd hret (by decide)
      have hgo : os.mkfifo link.pipe = .eexist → link.existsOk = true := fun heexist =>
        Bool.of_not_eq_false fun hoff => hstop ⟨heexist, hoff⟩
      obtain ⟨vars', hsame, -, hrest⟩ := mkfifoChain_goesOn links vars hfail hgo hexec
      intro pipe hpipe
      cases List.mem_cons.mp hpipe with
      | inl heq =>
          rw [heq]
          exact exec_keeps hrest (Function.update_self ..)
      | inr hin => exact ih hrest (hsame.symm.trans hret) pipe hin

theorem not_allThere {pipes : List PipeName} :
    ¬AllThere files dir pipes ↔ ∃ pipe ∈ pipes, files { dir, pipe } = false := by
  unfold AllThere
  constructor
  · intro h
    by_contra hnone
    apply h
    intro pipe hpipe
    exact Bool.of_not_eq_false fun hoff => hnone ⟨pipe, hpipe, hoff⟩
  · intro ⟨pipe, hpipe, hoff⟩ hall
    rw [hall pipe hpipe] at hoff
    exact absurd hoff (by decide)

/-- A chain returns 0 exactly when its pipes are there, if and only if it was orderly. -/
theorem mkfifoChain_iff {links : List Link} {vars : PipeVars}
    (hnodup : (links.map Link.pipe).Nodup) (hlast : StopsLast links)
    (hexec : exec applyFile files (mkfifoChain os dir links vars).calls = some files') :
    ((mkfifoChain os dir links vars).ret = 0 ↔ AllThere files' dir (links.map Link.pipe)) ↔
      OrderlyChain files dir os.mkfifo links := by
  induction links generalizing files vars with
  | nil =>
      have hnone : AllThere files' dir [] := fun pipe hpipe => nomatch hpipe
      exact iff_of_true (iff_of_true rfl hnone) trivial
  | cons link links ih =>
      unfold OrderlyChain
      by_cases hfail : os.mkfifo link.pipe = .failed
      · -- the chain ends here with -1
        obtain ⟨hret, hfiles⟩ := mkfifoChain_stopFailed links vars hfail hexec
        have hfalse : ¬((-1 : ℤ) = 0) := by decide
        rw [if_pos hfail, hret, hfiles, iff_false_left hfalse, not_allThere]
        simp only [List.mem_map, exists_exists_and_eq_and]
      by_cases hstop : os.mkfifo link.pipe = .eexist ∧ link.existsOk = false
      · -- here too, with its last pipe there
        obtain ⟨hret, hfiles, hpath⟩ := mkfifoChain_stopEexist links vars hstop.1 hstop.2 hexec
        have hend : links = [] := hlast.1 hstop.2
        have hthere : AllThere files dir ([link].map Link.pipe) := by
          intro pipe hpipe
          rw [List.mem_singleton.mp hpipe, hpath]
        have hfalse : ¬((-1 : ℤ) = 0) := by decide
        rw [if_neg hfail, hret, hfiles, hend, iff_false_left hfalse, hpath]
        apply iff_of_false
        · exact fun hnot => hnot hthere
        · exact fun hor => absurd (hor.1 hstop.2) (by decide)
      have hgo : os.mkfifo link.pipe = .eexist → link.existsOk = true := fun heexist =>
        Bool.of_not_eq_false fun hoff => hstop ⟨heexist, hoff⟩
      obtain ⟨vars', hsame, hnew, hrest⟩ := mkfifoChain_goesOn links vars hfail hgo hexec
      have hnotin : link.pipe ∉ links.map Link.pipe := (List.nodup_cons.mp hnodup).1
      have hfirst : files' { dir, pipe := link.pipe } = true :=
        exec_keeps hrest (Function.update_self ..)
      -- the link itself is there, and it was new if it had to be
      have hall : AllThere files' dir ((link :: links).map Link.pipe) ↔
          AllThere files' dir (links.map Link.pipe) := by
        rw [AllThere, List.map_cons, List.forall_mem_cons]
        exact and_iff_right hfirst
      have hothers : ∀ l ∈ links, Function.update files { dir, pipe := link.pipe } true
          { dir, pipe := l.pipe } = files { dir, pipe := l.pipe } := by
        intro l hl
        apply Function.update_of_ne
        intro heq
        have hpipe : l.pipe = link.pipe := congrArg PipePath.pipe heq
        rw [← hpipe] at hnotin
        exact hnotin (List.mem_map_of_mem hl)
      rw [if_neg hfail, hsame, hall, ih (List.nodup_cons.mp hnodup).2 hlast.2 hrest,
        orderlyChain_congr hothers]
      exact (and_iff_right hnew).symm

end Chain

/-! ## The three functions -/

inductive FifoFn
  | initClientFifo
  | initServerFifo
  | initNamedFifo
  deriving DecidableEq

def FifoFn.links : FifoFn → List Link
  | initClientFifo => clientLinks
  | initServerFifo => serverLinks
  | initNamedFifo => clientLinks ++ serverLinks

-- the pipes that the function is responsible for
def FifoFn.pipes (fn : FifoFn) : List PipeName := fn.links.map Link.pipe

def FifoFn.run : FifoFn → Outcomes → PipeVars → PipeRun
  | initClientFifo, os, vars => NamedPipe.initClientFifo os vars
  | initServerFifo, os, vars => NamedPipe.initServerFifo os vars
  | initNamedFifo, os, vars => NamedPipe.initNamedFifo os vars

theorem FifoFn.run_eq (fn : FifoFn) {os : Outcomes} {dir : String} (h : os.serverPath = some dir)
    (vars : PipeVars) : fn.run os vars = mkfifoChain os dir fn.links vars := by
  have hpath : ∀ run, withServerPath os vars run = run dir := by
    intro run
    rw [withServerPath, h]
  cases fn with
  | initClientFifo => exact hpath _
  | initServerFifo => exact hpath _
  | initNamedFifo => exact hpath _

theorem FifoFn.pipes_nodup (fn : FifoFn) : fn.pipes.Nodup := by
  cases fn with
  | initClientFifo => decide
  | initServerFifo => decide
  | initNamedFifo => decide

theorem FifoFn.links_stopsLast (fn : FifoFn) : StopsLast fn.links := by
  cases fn with
  | initClientFifo => simp [FifoFn.links, clientLinks, StopsLast]
  | initServerFifo => simp [FifoFn.links, serverLinks, StopsLast]
  | initNamedFifo => simp [FifoFn.links, clientLinks, serverLinks, StopsLast]

/-- One call by some process, whose globals hold `vars`, with CXL_RELAY_SERVER_PATH set to `dir`. -/
structure FifoCall where
  fn : FifoFn
  dir : String
  mkfifo : PipeName → MkfifoResult
  vars : PipeVars

def FifoCall.run (c : FifoCall) : PipeRun :=
  c.fn.run { serverPath := some c.dir, mkfifo := c.mkfifo, openFd := fun _ => -1 } c.vars

def FifoCall.Orderly (files : PipeFiles) (c : FifoCall) : Prop :=
  OrderlyChain files c.dir c.mkfifo c.fn.links

-- one call: it returns 0 only with its pipes there, and exactly then if it was orderly
theorem FifoCall.run_allThere {c : FifoCall} {files files' : PipeFiles}
    (h : exec applyFile files c.run.calls = some files') (hret : c.run.ret = 0) :
    AllThere files' c.dir c.fn.pipes := by
  rw [FifoCall.run, FifoFn.run_eq c.fn rfl] at h hret
  exact mkfifoChain_allThere h hret

theorem FifoCall.run_iff {c : FifoCall} {files files' : PipeFiles}
    (h : exec applyFile files c.run.calls = some files') :
    (c.run.ret = 0 ↔ AllThere files' c.dir c.fn.pipes) ↔ c.Orderly files := by
  rw [FifoCall.run, FifoFn.run_eq c.fn rfl] at h ⊢
  exact mkfifoChain_iff c.fn.pipes_nodup c.fn.links_stopsLast h

/-! ## Runs -/

/-- What a call returned, whether its pipes were there then, and whether an earlier call of the
function in that directory had returned 0 with none of its pipes removed since. -/
structure FifoReturn where
  ret : ℤ
  allThere : Bool
  repeated : Bool

structure FifoRuns where
  files : PipeFiles
  succeeded : List (FifoFn × String)
  returned : List FifoReturn

def FifoRuns.start (files : PipeFiles) : FifoRuns where
  files
  succeeded := []
  returned := []

-- the calls, and what anything else does to the files in between
inductive FifoAct
  | call (c : FifoCall)
  | create (path : PipePath)
  | remove (path : PipePath)

def fifoStep (s : FifoRuns) : FifoAct → Option FifoRuns
  | .call c => (exec applyFile s.files c.run.calls).map fun files =>
      { files
        succeeded := if c.run.ret = 0 then (c.fn, c.dir) :: s.succeeded else s.succeeded
        returned := s.returned ++
          [{ ret := c.run.ret
             allThere := c.fn.pipes.all fun pipe => files { dir := c.dir, pipe }
             repeated := decide ((c.fn, c.dir) ∈ s.succeeded) }] }
  | .create path => some { s with files := Function.update s.files path true }
  | .remove path => some
      { s with
        files := Function.update s.files path false
        succeeded := s.succeeded.filter fun x => !(x.2 = path.dir && path.pipe ∈ x.1.pipes) }

/-- A call returned 0 exactly when its pipes were there, and did so whenever it repeated one that
had succeeded. -/
def FifoReturn.Right (r : FifoReturn) : Prop :=
  (r.ret = 0 ↔ r.allThere = true) ∧ (r.repeated = true → r.ret = 0)

def AllRight (s : FifoRuns) : Prop := ∀ r ∈ s.returned, r.Right

-- the pipes of what succeeded stay until one of them is removed
def SucceededThere (s : FifoRuns) : Prop :=
  ∀ x ∈ s.succeeded, AllThere s.files x.2 x.1.pipes

theorem fifoStep_succeededThere (s : FifoRuns) (a : FifoAct) (s' : FifoRuns)
    (hs : SucceededThere s) (h : fifoStep s a = some s') : SucceededThere s' := by
  cases a with
  | call c =>
      obtain ⟨files, hexec, hs'⟩ := Option.map_eq_some_iff.mp h
      rw [← hs']
      have hkept : ∀ x ∈ s.succeeded, AllThere files x.2 x.1.pipes := fun x hx pipe hpipe =>
        exec_keeps hexec (hs x hx pipe hpipe)
      change ∀ x : FifoFn × String, x ∈ (if c.run.ret = 0 then _ else _) →
        AllThere files x.2 x.1.pipes
      by_cases hret : c.run.ret = 0
      · rw [if_pos hret, List.forall_mem_cons]
        exact ⟨FifoCall.run_allThere hexec hret, hkept⟩
      · rw [if_neg hret]
        exact hkept
  | create path =>
      rw [← Option.some.inj h]
      intro x hx pipe hpipe
      change Function.update s.files path true { dir := x.2, pipe } = true
      rw [Function.update_apply, hs x hx pipe hpipe, ite_self]
  | remove path =>
      rw [← Option.some.inj h]
      intro x hx pipe hpipe
      obtain ⟨hin, hother⟩ := List.mem_filter.mp hx
      have hne : ({ dir := x.2, pipe } : PipePath) ≠ path := by
        intro heq
        rw [← heq] at hother
        simp only [hpipe, decide_true, Bool.and_self, Bool.not_true, Bool.false_eq_true] at hother
      change Function.update s.files path false { dir := x.2, pipe } = true
      rw [Function.update_of_ne hne, hs x hin pipe hpipe]

-- the condition on a step, in the state before it
def FifoAct.Orderly (s : FifoRuns) : FifoAct → Prop
  | .call c => c.Orderly s.files
  | .create _ => True
  | .remove _ => True

theorem fifoStep_allRight (s : FifoRuns) (a : FifoAct) (s' : FifoRuns)
    (hs : SucceededThere s) (h : fifoStep s a = some s') :
    AllRight s' ↔ AllRight s ∧ a.Orderly s := by
  cases a with
  | call c =>
      obtain ⟨files, hexec, hs'⟩ := Option.map_eq_some_iff.mp h
      have hall : (c.fn.pipes.all fun pipe => files { dir := c.dir, pipe }) = true ↔
          AllThere files c.dir c.fn.pipes := List.all_eq_true
      -- a repeated call finds its pipes there, and they are there when it returns
      have hrepeated : (c.fn, c.dir) ∈ s.succeeded → AllThere files c.dir c.fn.pipes :=
        fun hin pipe hpipe => exec_keeps hexec (hs _ hin pipe hpipe)
      rw [← hs', AllRight, List.forall_mem_append, List.forall_mem_singleton, FifoReturn.Right,
        hall, FifoAct.Orderly, ← FifoCall.run_iff hexec, decide_eq_true_iff]
      apply and_congr_right
      intro _
      exact and_iff_left_of_imp fun hiff hin => hiff.mpr (hrepeated hin)
  | create path =>
      rw [← Option.some.inj h]
      exact (and_iff_left trivial).symm
  | remove path =>
      rw [← Option.some.inj h]
      exact (and_iff_left trivial).symm

/-- In a run of calls by any processes every call is right, those that repeat a successful one
included, if and only if every call is orderly. -/
theorem fifoCreation_allRight_iff {files : PipeFiles} {acts : List FifoAct} {s : FifoRuns}
    (h : exec fifoStep (.start files) acts = some s) :
    AllRight s ↔ okAlong fifoStep (fun s a => a.Orderly s) (.start files) acts := by
  have hnone : SucceededThere (.start files) := fun x hx => nomatch hx
  have hright : AllRight (.start files) := fun r hr => nomatch hr
  rw [exec_iff_okAlong_of_invariant fifoStep_succeededThere fifoStep_allRight hnone h]
  exact and_iff_right hright

-- a process that calls one of the functions in `run`
def callIn (fn : FifoFn) (r : MkfifoResult) : FifoAct :=
  .call { fn, dir := "run", mkfifo := fun _ => r, vars := .init }

-- two client starts, the second one with the pipes of the first
theorem fifoCreation_client_twice :
    ∃ s, exec fifoStep (.start fun _ => false)
        [callIn .initClientFifo .created, callIn .initClientFifo .eexist] = some s ∧
      s.returned.map FifoReturn.repeated = [false, true] ∧ AllRight s := by
  have hchain : ∀ files, OrderlyChain files "run" (fun _ => .created) clientLinks :=
    fun _ => And.intro (fun hoff => nomatch hoff) (And.intro (fun hoff => nomatch hoff) trivial)
  have hagain : ∀ files, OrderlyChain files "run" (fun _ => .eexist) clientLinks :=
    fun _ => And.intro (fun hoff => nomatch hoff) (And.intro (fun hoff => nomatch hoff) trivial)
  refine ⟨_, rfl, rfl, (fifoCreation_allRight_iff (show exec fifoStep (.start fun _ => false)
    [callIn .initClientFifo .created, callIn .initClientFifo .eexist] = some _ from rfl)).mpr ?_⟩
  exact And.intro (hchain _) (And.intro (hagain _) trivial)

/-- The second call of `init_server_fifo` returns -1 with both of its pipes there. -/
theorem fifoCreation_server_twice :
    ∃ s, exec fifoStep (.start fun _ => false)
        [callIn .initServerFifo .created, callIn .initServerFifo .eexist] = some s ∧
      ¬AllRight s := by
  refine ⟨_, rfl, ?_⟩
  intro hright
  have hsecond := hright { ret := -1, allThere := true, repeated := true }
    (List.mem_cons_of_mem _ (List.mem_cons_self ..))
  exact absurd (hsecond.2 rfl) (by decide)

end NamedPipe

end SimConnect
