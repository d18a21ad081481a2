import SimConnect.IssueCalls
import Mathlib.Data.Finset.Card
import Mathlib.Data.Finset.Lattice.Fold
import Mathlib.Order.Lattice.Nat

/-!
# The descriptors of the client pipes

Every access opens both client pipes and keeps what it has opened in two globals.  The next access
overwrites them, and no access calls `close_client_pipe`.
-/

open SimConnect.Foundation

namespace SimConnect

/-! ## The descriptor table -/

/-- The descriptors that the process has open on the client pipes and on anything else, under a
limit on their number. -/
structure DescriptorTable where
  client : Finset ℤ
  other : Finset ℤ
  limit : ℕ

namespace DescriptorTable

def HasRoom (d : DescriptorTable) : Prop := d.client.card + d.other.card < d.limit

instance (d : DescriptorTable) : Decidable d.HasRoom :=
  inferInstanceAs (Decidable (d.client.card + d.other.card < d.limit))

def IsFree (d : DescriptorTable) (fd : ℤ) : Prop := 0 ≤ fd ∧ fd ∉ d.client ∧ fd ∉ d.other

def openClient (d : DescriptorTable) (fd : ℤ) : DescriptorTable :=
  { d with client := insert fd d.client }

def openOther (d : DescriptorTable) (fd : ℤ) : DescriptorTable :=
  { d with other := insert fd d.other }

def close (d : DescriptorTable) (fd : ℤ) : DescriptorTable :=
  { d with client := d.client.erase fd, other := d.other.erase fd }

/-- No call fails, but for an open when the limit is reached. -/
def call (d : DescriptorTable) : (c : SysCall) → c.Ret → DescriptorTable → Prop
  | .open _, fd, d' =>
      if d.HasRoom then d.IsFree fd ∧ d' = d.openClient fd else fd = -1 ∧ d' = d
  | .fopen _, fp, d' =>
      if d.HasRoom then fp = true ∧ ∃ fd, d.IsFree fd ∧ d' = d.openOther fd
      else fp = false ∧ d' = d
  | .close fd, _, d' => d' = d.close fd
  | .write _ _, r, d' => r = simicsPktSize ∧ d' = d
  | .read _, r, d' => r.IsFull ∧ d' = d
  | .getenv name, s, d' => (name = .cxlRelayServerPath → s.isSome = true) ∧ d' = d
  | .strbuf _ _, _, d' => d' = d
  | .localtime, _, d' => d' = d
  | .fprintf _, _, d' => d' = d
  | .fflush _, _, d' => d' = d

def world : SysWorld DescriptorTable where
  call := call
  env := fun _ _ => False

variable {d d' : DescriptorTable}

theorem call_quiet {c : SysCall} {r : c.Ret} (hc : c.isIo = false) (hcall : d.call c r d') :
    d' = d := by
  cases c with
  | getenv name => exact hcall.2
  | strbuf buf s => exact hcall
  | localtime => exact hcall
  | fprintf fp => exact hcall
  | fflush fp => exact hcall
  | «open» path => cases hc
  | fopen path => cases hc
  | close fd => cases hc
  | write fd p => cases hc
  | read fd => cases hc

theorem path_ioCalls {t : SysTrace} (h : world.Path d t d') : world.Path d (ioCalls t) d' :=
  h.filter fun _ _ _ _ hc hcall => call_quiet hc hcall

-- an open that succeeds takes one more descriptor, one that fails takes none
theorem open_card {path : PipePath} {fd : ℤ} (hcall : d.call (.open path) fd d') :
    if fd < 0 then d' = d
    else fd ∉ d.client ∧ fd ∉ d.other ∧ d' = d.openClient fd := by
  change if d.HasRoom then d.IsFree fd ∧ d' = d.openClient fd else fd = -1 ∧ d' = d at hcall
  by_cases hroom : d.HasRoom
  · rw [if_pos hroom] at hcall
    obtain ⟨⟨hfd, hfree⟩, hd'⟩ := hcall
    rw [if_neg (Int.not_lt.mpr hfd)]
    exact ⟨hfree.1, hfree.2, hd'⟩
  · rw [if_neg hroom] at hcall
    rw [if_pos (show fd < 0 by omega)]
    exact hcall.2

theorem fopen_client {path : String} {fp : Bool} (hcall : d.call (.fopen path) fp d') :
    d'.client = d.client := by
  change if d.HasRoom then fp = true ∧ ∃ fd, d.IsFree fd ∧ d' = d.openOther fd
    else fp = false ∧ d' = d at hcall
  by_cases hroom : d.HasRoom
  · rw [if_pos hroom] at hcall
    obtain ⟨_, fd, _, hd'⟩ := hcall
    rw [hd']
    rfl
  · rw [if_neg hroom] at hcall
    rw [hcall.2]

-- a descriptor that was free before is given back
theorem close_openClient {fd : ℤ} (hclient : fd ∉ d.client) (hother : fd ∉ d.other) :
    (d.openClient fd).close fd = d := by
  rw [openClient, close, Finset.erase_insert hclient, Finset.erase_eq_of_notMem hother]

theorem card_openClient {fd : ℤ} (hclient : fd ∉ d.client) :
    (d.openClient fd).client.card = d.client.card + 1 :=
  Finset.card_insert_of_notMem hclient

end DescriptorTable

/-! ## What one access holds -/

-- both opens of open_client_pipe, with a descriptor each
def OpensPipes (t : SysTrace) : Prop :=
  (openCalls t).length = 2 ∧ ∀ x ∈ openCalls t, 0 ≤ x.2

instance (t : SysTrace) : Decidable (OpensPipes t) :=
  inferInstanceAs (Decidable ((openCalls t).length = 2 ∧ ∀ x ∈ openCalls t, 0 ≤ x.2))

theorem opensPipes_ioCalls (t : SysTrace) : OpensPipes (ioCalls t) ↔ OpensPipes t := by
  unfold OpensPipes
  rw [openCalls_ioCalls]

section Access

variable {d d' : DescriptorTable} {a : Access} {spd : SimicsTransaction} {t : SysTrace}
  {o : Option AccessResult}

theorem notOpened_held (h : NotOpened t) (hpath : DescriptorTable.world.Path d t d') :
    d' = d ∧ ¬ OpensPipes t := by
  cases h with
  | noPath => exact ⟨hpath.nil_inv, by decide⟩
  | @request dir fd hfd =>
      obtain ⟨d₁, hopen, hrest⟩ := hpath.cons_inv
      have hfailed := DescriptorTable.open_card hopen
      rw [if_pos hfd] at hfailed
      exact ⟨hrest.nil_inv.trans hfailed, fun h => absurd (show 1 = 2 from h.1) (by decide)⟩
  | @reply dir fd fd' hfd hfd' =>
      obtain ⟨d₁, hopen, hpath⟩ := hpath.cons_inv
      obtain ⟨d₂, hopen', hpath⟩ := hpath.cons_inv
      obtain ⟨d₃, hclose, hrest⟩ := hpath.cons_inv
      have hopened := DescriptorTable.open_card hopen
      have hfailed := DescriptorTable.open_card hopen'
      rw [if_neg (Int.not_lt.mpr hfd)] at hopened
      rw [if_pos hfd'] at hfailed
      have hclosed : d₃ = d₂.close fd := hclose
      constructor
      · rw [hrest.nil_inv, hclosed, hfailed, hopened.2.2,
          DescriptorTable.close_openClient hopened.1 hopened.2.1]
      · intro h
        exact absurd (h.2 _ (List.mem_cons_of_mem _ List.mem_cons_self)) (Int.not_le.mpr hfd')

theorem bothOpened_held {dir : String} {fd fd' : ℤ} (hfd : 0 ≤ fd) (hfd' : 0 ≤ fd')
    (hpath : DescriptorTable.world.Path d (bothOpened dir fd fd') d') :
    d'.client.card = d.client.card + 2 := by
  obtain ⟨d₁, hopen, hpath⟩ := hpath.cons_inv
  obtain ⟨d₂, hopen', hrest⟩ := hpath.cons_inv
  have hopened := DescriptorTable.open_card hopen
  have hopened' := DescriptorTable.open_card hopen'
  rw [if_neg (Int.not_lt.mpr hfd)] at hopened
  rw [if_neg (Int.not_lt.mpr hfd')] at hopened'
  have hclient := hopened'.1
  rw [hrest.nil_inv, hopened'.2.2, DescriptorTable.card_openClient hclient, hopened.2.2,
    DescriptorTable.card_openClient hopened.1]

theorem accessCalls_held (h : AccessCalls a spd t o)
    (hpath : DescriptorTable.world.Path d t d') :
    d'.client.card = d.client.card + if OpensPipes t then 2 else 0 := by
  cases h with
  | notOpened hclosed =>
      obtain ⟨hd', hopens⟩ := notOpened_held hclosed hpath
      rw [if_neg hopens, hd', Nat.add_zero]
  | @enqueueFailed dir fd fd' _ _ _ =>
      -- a write does not fail in this world
      obtain ⟨d₁, _, hrest⟩ := hpath.append_inv
      obtain ⟨d₂, hwrite, _⟩ := hrest.cons_inv
      exact absurd (show (-1 : ℤ) = simicsPktSize from hwrite.1) (by decide)
  | @exchanged dir fd fd' retval r hfd hfd' _ =>
      obtain ⟨d₁, hopened, hrest⟩ := hpath.append_inv
      obtain ⟨d₂, hwrite, hrest⟩ := hrest.cons_inv
      obtain ⟨d₃, hread, hrest⟩ := hrest.cons_inv
      have hd₂ : d₂ = d₁ := hwrite.2
      have hd₃ : d₃ = d₂ := hread.2
      have hopens : OpensPipes (bothOpened dir fd fd' ++
          [⟨.write fd spd, retval⟩, ⟨.read fd', r⟩]) := by
        refine ⟨rfl, fun x hx => ?_⟩
        have hx : x ∈ [(PipePath.mk dir .requestClient, fd),
            (PipePath.mk dir .replyClient, fd')] := hx
        rcases List.mem_cons.mp hx with hrequest | hreply
        · rw [hrequest]
          exact hfd
        · rw [List.mem_singleton.mp hreply]
          exact hfd'
      rw [if_pos hopens, hrest.nil_inv, hd₃, hd₂, bothOpened_held hfd hfd' hopened]

/-- An access takes two descriptors if it opens its pipes and none otherwise. -/
theorem wholeCalls_held (h : WholeCalls a spd (ioCalls t) o)
    (hpath : DescriptorTable.world.Path d t d') :
    d'.client.card = d.client.card + if OpensPipes t then 2 else 0 := by
  have hpath := DescriptorTable.path_ioCalls hpath
  simp only [← opensPipes_ioCalls t]
  generalize ioCalls t = l at h hpath
  cases h with
  | plain h => exact accessCalls_held h hpath
  | @log path t o h =>
      obtain ⟨d₁, hfopen, hrest⟩ := hpath.cons_inv
      have hheld := accessCalls_held h hrest
      rw [DescriptorTable.fopen_client hfopen] at hheld
      exact hheld
  | noLog =>
      obtain ⟨d₁, hfopen, hrest⟩ := hpath.cons_inv
      rw [hrest.nil_inv, DescriptorTable.fopen_client hfopen]
      rfl

end Access

/-! ## Runs of accesses -/

abbrev IssueRounds := List (DeviceAccess × SysTrace × Option (ExceptionType × Transaction))

-- all calls of a run
def IssueRounds.calls (rounds : IssueRounds) : SysTrace := rounds.flatMap fun r => r.2.1

def UsesRtl (rounds : IssueRounds) : Prop := ∀ r ∈ rounds, r.1.dev.useRtl = true

section Run

variable {m : ForwardReceiver} {rounds : IssueRounds} {d d' : DescriptorTable}

/-- The descriptors held on the client pipes grow by two with every access that opens its pipes. -/
theorem run_held (h : Session issueBody m rounds) (hrtl : UsesRtl rounds)
    (hpath : DescriptorTable.world.Path d rounds.calls d') :
    d'.client.card = d.client.card + 2 * rounds.countP fun r => OpensPipes r.2.1 := by
  have hone : ∀ (req : DeviceAccess) (m : ForwardReceiver) (t : SysTrace)
      (o : Option ((ExceptionType × Transaction) × ForwardReceiver)) (d d' : DescriptorTable),
      req.dev.useRtl = true → (issueBody req m).Trace t o →
      DescriptorTable.world.Path d t d' →
      d'.client.card = d.client.card + if OpensPipes t then 2 else 0 := by
    intro req m t o d d' hrtl htr hpath
    obtain ⟨res, hcalls, _⟩ := issue_calls hrtl htr
    exact wholeCalls_held hcalls hpath
  induction h generalizing d with
  | nil m => rw [hpath.nil_inv, List.countP_nil, Nat.mul_zero, Nat.add_zero]
  | @halt m req t htr =>
      have hcalls : IssueRounds.calls [(req, t, none)] = t := List.append_nil t
      rw [hcalls] at hpath
      rw [hone req m t _ d d' (hrtl _ List.mem_cons_self) htr hpath, List.countP_singleton]
      by_cases hopens : OpensPipes t
      · simp only [hopens, if_true, decide_true]
      · simp only [hopens, if_false, decide_false, Bool.false_eq_true, Nat.mul_zero]
  | @cons m m' req t a rounds htr _ ih =>
      obtain ⟨d₁, hnow, hlater⟩ := hpath.append_inv
      have hheld := hone req m t _ d d₁ (hrtl _ List.mem_cons_self) htr hnow
      rw [ih (fun r hr => hrtl r (List.mem_cons_of_mem _ hr)) hlater, hheld, List.countP_cons]
      by_cases hopens : OpensPipes t
      · simp only [hopens, if_true, decide_true]
        omega
      · simp only [hopens, if_false, decide_false, Bool.false_eq_true]
        omega

/-- The accesses after the first leave the process with no more descriptors on the client pipes than
the two of the first, and all of them open their pipes. -/
structure KeepsDescriptors (later : IssueRounds) (d : DescriptorTable) : Prop where
  held : d.client.card ≤ 2
  opens : ∀ r ∈ later, OpensPipes r.2.1

-- a second access either opens two more or does not open its pipes
theorem not_keepsDescriptors {d₁ d₂ : DescriptorTable} {m' : ForwardReceiver} {later : IssueRounds}
    (h : Session issueBody m' later) (hrtl : UsesRtl later) (h₁ : d₁.client.card = 2)
    (hpath : DescriptorTable.world.Path d₁ later.calls d₂) (hlater : later ≠ []) :
    ¬ KeepsDescriptors later d₂ := by
  intro hkeeps
  have hheld := run_held h hrtl hpath
  have hall : later.countP (fun r => OpensPipes r.2.1) = later.length := by
    rw [List.countP_eq_length]
    intro r hr
    exact decide_eq_true (hkeeps.opens r hr)
  have hpos := List.length_pos_of_ne_nil hlater
  have hle := hkeeps.held
  rw [hall] at hheld
  omega

end Run

/-- From a process with no descriptor on the client pipes, under any limit under which the first
access opens its pipes: a run keeps the descriptors exactly when it has no second access. -/
theorem descriptors_kept_iff {m m' : ForwardReceiver} {req : DeviceAccess} {t : SysTrace}
    {a : ExceptionType × Transaction} {later : IssueRounds} {d₀ d₁ d₂ : DescriptorTable}
    (hrtl : UsesRtl ((req, t, some a) :: later)) (hfirst : (issueBody req m).Trace t (some (a, m')))
    (h : Session issueBody m' later) (hempty : d₀.client = ∅)
    (hpath : DescriptorTable.world.Path d₀ t d₁) (hopens : OpensPipes t)
    (hpath' : DescriptorTable.world.Path d₁ later.calls d₂) :
    KeepsDescriptors later d₂ ↔ later = [] := by
  obtain ⟨res, hcalls, _⟩ := issue_calls (hrtl _ List.mem_cons_self) hfirst
  have h₁ : d₁.client.card = 2 := by
    rw [wholeCalls_held hcalls hpath, if_pos hopens, hempty, Finset.card_empty]
  constructor
  · intro hkeeps
    by_contra hlater
    exact not_keepsDescriptors h (fun r hr => hrtl r (List.mem_cons_of_mem _ hr)) h₁ hpath' hlater
      hkeeps
  · intro hlater
    rw [hlater] at hpath' ⊢
    have hd₂ : d₂ = d₁ := hpath'.nil_inv
    refine ⟨?_, fun r hr => absurd hr List.not_mem_nil⟩
    rw [hd₂, h₁]

/-! ## A second access -/

-- a number above every descriptor in use
def DescriptorTable.free (d : DescriptorTable) : ℤ := (d.client ∪ d.other).sup Int.toNat + 1

theorem DescriptorTable.free_isFree (d : DescriptorTable) : d.IsFree d.free := by
  have habove : ∀ fd ∈ d.client ∪ d.other, fd < d.free := by
    intro fd hfd
    have hle : fd.toNat ≤ (d.client ∪ d.other).sup Int.toNat := Finset.le_sup hfd
    rw [free]
    omega
  refine ⟨by rw [free]; omega, fun hmem => ?_, fun hmem => ?_⟩
  · exact lt_irrefl _ (habove _ (Finset.mem_union_left _ hmem))
  · exact lt_irrefl _ (habove _ (Finset.mem_union_right _ hmem))

def DescriptorTable.answer (d : DescriptorTable) : (c : SysCall) → c.Ret × DescriptorTable
  | .open _ => if d.HasRoom then (d.free, d.openClient d.free) else (-1, d)
  | .fopen _ => if d.HasRoom then (true, d.openOther d.free) else (false, d)
  | .close fd => ((), d.close fd)
  | .write _ _ => (simicsPktSize, d)
  | .read _ => (.packet .zero, d)
  | .getenv _ => (some "relay", d)
  | .strbuf _ _ => ((), d)
  | .localtime => (true, d)
  | .fprintf _ => ((), d)
  | .fflush _ => ((), d)

theorem DescriptorTable.call_answer (d : DescriptorTable) (c : SysCall) :
    d.call c (d.answer c).1 (d.answer c).2 := by
  cases c with
  | «open» path =>
      change if d.HasRoom then _ else _
      by_cases hroom : d.HasRoom
      · rw [show d.answer (.open path) = (d.free, d.openClient d.free) from if_pos hroom,
          if_pos hroom]
        exact ⟨d.free_isFree, rfl⟩
      · rw [show d.answer (.open path) = (-1, d) from if_neg hroom, if_neg hroom]
        exact ⟨rfl, rfl⟩
  | fopen path =>
      change if d.HasRoom then _ else _
      by_cases hroom : d.HasRoom
      · rw [show d.answer (.fopen path) = (true, d.openOther d.free) from if_pos hroom,
          if_pos hroom]
        exact ⟨rfl, d.free, d.free_isFree, rfl⟩
      · rw [show d.answer (.fopen path) = (false, d) from if_neg hroom, if_neg hroom]
        exact ⟨rfl, rfl⟩
  | close fd => rfl
  | write fd p => exact ⟨rfl, rfl⟩
  | read fd => exact ⟨ReadResult.packet_isFull .zero, rfl⟩
  | getenv name => exact ⟨fun _ => rfl, rfl⟩
  | strbuf buf s => rfl
  | localtime => rfl
  | fprintf fp => rfl
  | fflush fp => rfl

-- standard input, output and error
def standardTable : DescriptorTable where
  client := ∅
  other := {0, 1, 2}
  limit := 1024

def oneRead : DeviceAccess where
  dev := rtlDevice
  t := { isRead := true, size := 4, value := 0 }
  addr := 0

def firstRun :=
  (issueBody oneRead .init).runWith DescriptorTable.answer standardTable

theorem firstRun_opens : OpensPipes firstRun.1 := by decide +kernel

theorem firstRun_path : DescriptorTable.world.Path standardTable firstRun.1 firstRun.2.2 :=
  Prog.path_runWith DescriptorTable.call_answer _ _

theorem firstRun_trace : ∃ a m', (issueBody oneRead .init).Trace firstRun.1 (some (a, m')) :=
  ⟨_, _, Prog.trace_runWith DescriptorTable.answer (issueBody oneRead .init) standardTable⟩

theorem descriptors_kept_single : KeepsDescriptors [] firstRun.2.2 := by
  obtain ⟨a, m', htr⟩ := firstRun_trace
  have hrtl : UsesRtl [(oneRead, firstRun.1, some a)] := by
    intro r hr
    rw [List.mem_singleton.mp hr]
    rfl
  exact (descriptors_kept_iff hrtl htr (.nil m') rfl firstRun_path firstRun_opens (.nil _)).mpr rfl

/-- Two reads, the second like the first, leave four descriptors on the client pipes. -/
theorem second_access_leaks :
    ¬ ∀ (m m' : ForwardReceiver) (req : DeviceAccess) (t : SysTrace)
      (a : ExceptionType × Transaction) (later : IssueRounds) (d₀ d₁ d₂ : DescriptorTable),
      UsesRtl ((req, t, some a) :: later) →
      (issueBody req m).Trace t (some (a, m')) → Session issueBody m' later → d₀.client = ∅ →
      DescriptorTable.world.Path d₀ t d₁ → OpensPipes t →
      DescriptorTable.world.Path d₁ later.calls d₂ → KeepsDescriptors later d₂ := by
  intro h
  obtain ⟨a, m', htr⟩ := firstRun_trace
  let next := (issueBody oneRead m').runWith DescriptorTable.answer firstRun.2.2
  have hnext : (issueBody oneRead m').Trace next.1 next.2.1 := Prog.trace_runWith _ _ _
  have hpath' : DescriptorTable.world.Path firstRun.2.2 next.1 next.2.2 :=
    Prog.path_runWith DescriptorTable.call_answer _ _
  obtain ⟨res, hcalls, _⟩ := issue_calls rfl htr
  have h₁ := wholeCalls_held hcalls firstRun_path
  rw [if_pos firstRun_opens] at h₁
  have hrtl : ∀ o, UsesRtl [(oneRead, firstRun.1, some a), (oneRead, next.1, o)] := by
    intro o r hr
    rcases List.mem_cons.mp hr with hfirst | hsecond
    · rw [hfirst]
      rfl
    · rw [List.mem_singleton.mp hsecond]
      rfl
  -- the second access ends, one way or the other
  have hsession : Session issueBody m' [(oneRead, next.1, next.2.1.map Prod.fst)] := by
    generalize next.2.1 = o at hnext
    cases o with
    | none => exact .halt hnext
    | some x => exact .cons hnext (.nil x.2)
  have hcalls' : IssueRounds.calls [(oneRead, next.1, next.2.1.map Prod.fst)] = next.1 :=
    List.append_nil _
  refine not_keepsDescriptors hsession (fun r hr => hrtl _ r (List.mem_cons_of_mem _ hr)) h₁
    (by rw [hcalls']; exact hpath') (List.cons_ne_nil _ _) ?_
  exact h _ _ _ _ _ _ standardTable _ _ (hrtl _) htr hsession rfl firstRun_path firstRun_opens
    (by rw [hcalls']; exact hpath')

end SimConnect
