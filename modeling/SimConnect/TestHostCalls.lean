import SimConnect.TestHost
import SimConnect.Environment
import SimConnect.Foundation.VisibleCalls

/-!
# The calls of testhost.c

What `main` of testhost.c does to files and pipes for any results of its calls, on a relay or not:
the lists of calls that it can make with paths that fit the buffers they are copied to, exactly,
each with the way `main` ends.  Of what it reads only `sim_type` matters: the print of the reply
takes it as an index.
-/

open SimConnect.Foundation

namespace SimConnect

variable {α β : Type}

instance : (c : SysCall) → Inhabited c.Ret
  | .getenv _ => ⟨none⟩
  | .strbuf _ _ => ⟨()⟩
  | .fopen _ => ⟨false⟩
  | .localtime => ⟨false⟩
  | .fprintf _ => ⟨()⟩
  | .fflush _ => ⟨()⟩
  | .open _ => ⟨0⟩
  | .close _ => ⟨()⟩
  | .write _ _ => ⟨0⟩
  | .read _ => ⟨.fail⟩

/-! ## Library programs and their calls -/

def SysCall.Fits : SysCall → Prop
  | .strbuf buf s => FitsBuf (buf, s)
  | _ => True

theorem strings_fit_iff (t : SysTrace) :
    (∀ x ∈ strings t, FitsBuf x) ↔ ∀ x ∈ t, x.1.Fits := by
  induction t with
  | nil =>
      exact iff_of_true (fun _ hx => absurd hx List.not_mem_nil)
        (fun _ hx => absurd hx List.not_mem_nil)
  | cons x t ih =>
      obtain ⟨c, r⟩ := x
      rw [List.forall_mem_cons, ← ih]
      cases c with
      | strbuf buf s => exact List.forall_mem_cons
      | _ => exact (and_iff_right trivial).symm

theorem SysCall.fits_of_isIo {c : SysCall} (hc : c.isIo = true) : c.Fits := by
  cases c with
  | strbuf buf s => cases hc
  | _ => trivial

-- the program can make these calls, with strings that fit, and end like this
def LibM.Performs (m : LibM β) (lib : DeviceLib) (t : SysTrace) (r : Option β) : Prop :=
  (m.run lib).Shows SysCall.isIo SysCall.Fits t fun o => o.map Prod.fst = r

namespace LibM

variable {lib : DeviceLib} {t : SysTrace} {r : Option β}

theorem performs_pure {b : β} : (pure b : LibM β).Performs lib t r ↔ t = [] ∧ r = some b := by
  rw [eq_comm (a := r)]
  exact Prog.shows_ret

theorem performs_exit : (exit : LibM β).Performs lib t r ↔ t = [] ∧ r = none := by
  rw [eq_comm (a := r)]
  exact Prog.shows_halt

theorem performs_io {c : SysCall} {f : c.Ret → LibM β} (hc : c.isIo = true) :
    (sys c >>= f).Performs lib t r ↔ ∃ x t', t = ⟨c, x⟩ :: t' ∧ (f x).Performs lib t' r := by
  refine Iff.trans (Prog.shows_visible hc) ?_
  exact and_iff_right (SysCall.fits_of_isIo hc)

theorem performs_getenv {name : EnvVar} {f : Option String → LibM β} :
    (sys (.getenv name) >>= f).Performs lib t r ↔ ∃ env, (f env).Performs lib t r := by
  refine Iff.trans (Prog.shows_hidden rfl) ?_
  exact and_iff_right trivial

theorem performs_localtime {f : Bool → LibM β} :
    (sys .localtime >>= f).Performs lib t r ↔ ∃ localtime, (f localtime).Performs lib t r := by
  refine Iff.trans (Prog.shows_hidden rfl) ?_
  exact and_iff_right trivial

theorem performs_get {f : DeviceLib → LibM β} :
    (get >>= f).Performs lib t r ↔ (f lib).Performs lib t r := Iff.rfl

theorem performs_strbuf {buf : StringBuf} {s : String} {f : Unit → LibM β} :
    (sys (.strbuf buf s) >>= f).Performs lib t r ↔ FitsBuf (buf, s) ∧ (f ()).Performs lib t r := by
  refine Iff.trans (Prog.shows_hidden rfl) ?_
  exact and_congr_right fun _ => ⟨fun ⟨_, h⟩ => h, fun h => ⟨(), h⟩⟩

theorem LogOnly.performs {m : LibM α} (hm : m.LogOnly) (hplain : m.Plain) {f : α → LibM β}
    {R : Prop} (hf : ∀ a lib', lib.Agrees lib' → ((f a).Performs lib' t r ↔ R)) :
    (m >>= f).Performs lib t r ↔ R := by
  have hfits : ∀ c : SysCall, c.Plain lib.logfp → c.Fits := by
    intro c hc
    cases c with
    | strbuf buf s => exact hc.elim
    | _ => trivial
  have hconfined := (hm lib).only ((hplain lib).weaken hfits)
  exact hconfined.shows_bind fun x hx => hf x.1 x.2 hx

end LibM

section Performs

variable {lib : DeviceLib} {t : SysTrace} {r : Option β}

theorem enqueRequestClient_performs {p : SimicsTransaction}
    {f : Option SimicsTransaction → LibM β} :
    (enqueRequestClient p >>= f).Performs lib t r ↔
      ∃ (retval : ℤ) (t' : SysTrace), t = ⟨.write lib.requestClientPipe p, retval⟩ :: t' ∧
        (f (if retval = -1 then none else some p)).Performs lib t' r := by
  have hcall : (enqueRequestClient p >>= f).run lib =
      .call (.write lib.requestClientPipe p) fun retval =>
        (f (simicsEnqueRequestClientTlp retval p)).run lib := rfl
  rw [LibM.Performs, hcall]
  refine Iff.trans (Prog.shows_visible rfl) ?_
  exact and_iff_right trivial

theorem dequeReplyRequestClient_performs {rd : SimicsTransaction}
    {f : ℤ × SimicsTransaction → LibM β} :
    (dequeReplyRequestClient rd >>= f).Performs lib t r ↔
      ∃ (x : ReadResult) (t' : SysTrace), t = ⟨.read lib.replyClientPipe, x⟩ :: t' ∧
        (f (x.ret, x.store rd)).Performs lib t' r := by
  have hcall : (dequeReplyRequestClient rd >>= f).run lib =
      .call (.read lib.replyClientPipe) fun x =>
        (f (simicsDequeReplyRequestClientTlp x rd)).run lib := rfl
  rw [LibM.Performs, hcall]
  refine Iff.trans (Prog.shows_visible rfl) ?_
  exact and_iff_right trivial

-- the print of a packet goes on, or it strays where localtime gives a time
theorem printBounded_performs {p : SimicsTransaction} {flag : ℕ} {f : Option ℤ → LibM β}
    {R S : Prop}
    (hsome : ∀ ret lib', lib.Agrees lib' → ((f (some ret)).Performs lib' t r ↔ R))
    (hnone : (f none).Performs lib t r ↔ S) :
    (simicsPrintFifoPktDataAndLogBounded p flag >>= f).Performs lib t r ↔
      R ∨ ¬ SafeToPrint p flag ∧ S := by
  by_cases hsafe : SafeToPrint p flag
  · rw [printBounded_bind hsafe]
    refine Iff.trans (simicsPrintFifoPktDataAndLog_logOnly.performs
      simicsPrintFifoPktDataAndLog_plain hsome) ?_
    exact (or_iff_left fun h => h.1 hsafe).symm
  · have hquiet : AllInRange (logAccesses ⟨true, lib.logfp, false⟩ p flag) := allInRange_nil
    have hstray : ¬ AllInRange (logAccesses ⟨true, lib.logfp, true⟩ p flag) := fun hrange =>
      hsafe ((logAccesses_inRange_iff _ p flag).mp hrange ⟨rfl, Or.inl rfl⟩)
    rw [simicsPrintFifoPktDataAndLogBounded, bind_assoc, LibM.performs_localtime, Bool.exists_bool]
    simp only [bind_assoc, LibM.performs_get]
    rw [if_pos hquiet, if_neg hstray, if_pos Bool.not_false, pure_bind, pure_bind, hnone,
      hsome _ lib (.refl lib)]
    exact or_congr_right (and_iff_right hsafe).symm

-- cxl_relay_log_path holds 4096 bytes, a slash and the terminator included
theorem initLog_performs {f : ℤ × String → LibM β} {R : String → Prop}
    (hf : ∀ ret p, (f (ret, p ++ "/")).Performs lib t r ↔ R p) :
    (initLog >>= f).Performs lib t r ↔ ∃ p : String, p.utf8ByteSize ≤ 4094 ∧ R p := by
  have hslash : "/".utf8ByteSize = 1 := by decide
  rw [initLog, bind_assoc, LibM.performs_getenv]
  constructor
  · rintro ⟨env, h⟩
    cases env with
    | none =>
        obtain ⟨_, h⟩ := LibM.performs_strbuf.mp h
        exact ⟨".", by decide, (hf (-1) ".").mp h⟩
    | some p =>
        obtain ⟨_, h⟩ := LibM.performs_strbuf.mp h
        obtain ⟨hfit, h⟩ := LibM.performs_strbuf.mp h
        rw [FitsBuf, String.utf8ByteSize_append, hslash, StringBuf.size] at hfit
        exact ⟨p, by omega, (hf 0 p).mp h⟩
  · rintro ⟨p, hp, hR⟩
    have hfit : FitsBuf (.cxlRelayLogPath, p) := show p.utf8ByteSize + 1 ≤ 4096 by omega
    have hfit' : FitsBuf (.cxlRelayLogPath, p ++ "/") := by
      rw [FitsBuf, String.utf8ByteSize_append, hslash, StringBuf.size]
      omega
    refine ⟨some p, LibM.performs_strbuf.mpr ⟨hfit, LibM.performs_strbuf.mpr ⟨hfit', ?_⟩⟩⟩
    exact (hf 0 p).mpr hR

-- the four path strings of open_client_pipe
theorem pipeStrings_performs {dir : String} {m : LibM β} :
    (do
      sys (.strbuf (.pipeStr .requestClient) (PipePath.str ⟨dir, .requestClient⟩))
      sys (.strbuf (.pipeStr .replyClient) (PipePath.str ⟨dir, .replyClient⟩))
      sys (.strbuf (.pipeStr .requestServer) (PipePath.str ⟨dir, .requestServer⟩))
      sys (.strbuf (.pipeStr .replyServer) (PipePath.str ⟨dir, .replyServer⟩))
      m : LibM β).Performs lib t r ↔ dir.utf8ByteSize ≤ 1003 ∧ m.Performs lib t r := by
  have hfit := pipeStrings_fit_iff (some dir)
  simp only [pipeStrings, List.forall_mem_cons, Option.some.injEq, forall_eq'] at hfit
  constructor
  · intro h
    obtain ⟨h₁, h⟩ := LibM.performs_strbuf.mp h
    obtain ⟨h₂, h⟩ := LibM.performs_strbuf.mp h
    obtain ⟨h₃, h⟩ := LibM.performs_strbuf.mp h
    obtain ⟨h₄, h⟩ := LibM.performs_strbuf.mp h
    exact ⟨hfit.mp ⟨h₁, h₂, h₃, h₄, fun _ hx => absurd hx List.not_mem_nil⟩, h⟩
  · rintro ⟨hdir, h⟩
    obtain ⟨h₁, h₂, h₃, h₄, -⟩ := hfit.mpr hdir
    refine LibM.performs_strbuf.mpr ⟨h₁, LibM.performs_strbuf.mpr ⟨h₂, ?_⟩⟩
    exact LibM.performs_strbuf.mpr ⟨h₃, LibM.performs_strbuf.mpr ⟨h₄, h⟩⟩

-- the opens that fail, all of them with paths in `dir`
def FailsIn (dir : String) (t : SysTrace) : Prop :=
  (∃ fd : ℤ, fd < 0 ∧ t = [⟨.open ⟨dir, .requestClient⟩, fd⟩]) ∨
    ∃ fd fd' : ℤ, 0 ≤ fd ∧ fd' < 0 ∧ t = [⟨.open ⟨dir, .requestClient⟩, fd⟩,
      ⟨.open ⟨dir, .replyClient⟩, fd'⟩, ⟨.close fd, ()⟩]

theorem openBoth_performs {dir : String} {f : ℤ → LibM β} {R : ℤ → ℤ → SysTrace → Prop}
    (hfailed : ∀ ret lib t, ret < 0 → ((f ret).Performs lib t r ↔ t = [] ∧ r = none))
    (hopened : ∀ ret lib t, ¬ ret < 0 →
      ((f ret).Performs lib t r ↔ R lib.requestClientPipe lib.replyClientPipe t)) :
    (openBoth dir >>= f).Performs lib t r ↔ (FailsIn dir t ∧ r = none) ∨
      ∃ fd fd' t', 0 ≤ fd ∧ 0 ≤ fd' ∧ t = bothOpened dir fd fd' ++ t' ∧ R fd fd' t' := by
  have hfailed' : ∀ lib t, (f (-1)).Performs lib t r ↔ t = [] ∧ r = none := fun lib t =>
    hfailed (-1) lib t (by decide)
  constructor
  · intro h
    obtain ⟨fd, t₁, ht, h⟩ := (LibM.performs_io rfl).mp h
    change ((if fd < (0 : ℤ) then _ else _ : LibM ℤ) >>= f).Performs _ t₁ r at h
    by_cases hfd : fd < 0
    · rw [if_pos hfd] at h
      obtain ⟨hnil, hr⟩ := (hfailed' _ t₁).mp h
      rw [hnil] at ht
      exact Or.inl ⟨Or.inl ⟨fd, hfd, ht⟩, hr⟩
    · rw [if_neg hfd] at h
      obtain ⟨fd', t₂, ht₁, h⟩ := (LibM.performs_io rfl).mp h
      change ((if fd' < (0 : ℤ) then _ else _ : LibM ℤ) >>= f).Performs _ t₂ r at h
      by_cases hfd' : fd' < 0
      · rw [if_pos hfd'] at h
        obtain ⟨_, t₃, ht₂, h⟩ := (LibM.performs_io rfl).mp h
        obtain ⟨hnil, hr⟩ := (hfailed' _ t₃).mp h
        rw [ht₁, ht₂, hnil] at ht
        exact Or.inl ⟨Or.inr ⟨fd, fd', Int.not_lt.mp hfd, hfd', ht⟩, hr⟩
      · rw [if_neg hfd'] at h
        rw [ht₁] at ht
        have hR := (hopened 0 _ t₂ (by decide)).mp h
        exact Or.inr ⟨fd, fd', t₂, Int.not_lt.mp hfd, Int.not_lt.mp hfd', ht, hR⟩
  · rintro (⟨⟨fd, hfd, ht⟩ | ⟨fd, fd', hfd, hfd', ht⟩, hr⟩ | ⟨fd, fd', t', hfd, hfd', ht, hR⟩)
    · refine (LibM.performs_io rfl).mpr ⟨fd, [], ht, ?_⟩
      change ((if fd < (0 : ℤ) then _ else _ : LibM ℤ) >>= f).Performs _ _ r
      rw [if_pos hfd]
      exact (hfailed' _ []).mpr ⟨rfl, hr⟩
    · refine (LibM.performs_io rfl).mpr ⟨fd, _, ht, ?_⟩
      change ((if fd < (0 : ℤ) then _ else _ : LibM ℤ) >>= f).Performs _ _ r
      rw [if_neg (Int.not_lt.mpr hfd)]
      refine (LibM.performs_io rfl).mpr ⟨fd', _, rfl, ?_⟩
      change ((if fd' < (0 : ℤ) then _ else _ : LibM ℤ) >>= f).Performs _ _ r
      rw [if_pos hfd']
      exact (LibM.performs_io rfl).mpr ⟨(), [], rfl, (hfailed' _ []).mpr ⟨rfl, hr⟩⟩
    · refine (LibM.performs_io rfl).mpr ⟨fd, _, ht, ?_⟩
      change ((if fd < (0 : ℤ) then _ else _ : LibM ℤ) >>= f).Performs _ _ r
      rw [if_neg (Int.not_lt.mpr hfd)]
      refine (LibM.performs_io rfl).mpr ⟨fd', t', rfl, ?_⟩
      change ((if fd' < (0 : ℤ) then _ else _ : LibM ℤ) >>= f).Performs _ _ r
      rw [if_neg (Int.not_lt.mpr hfd')]
      exact (hopened 0 _ t' (by decide)).mpr hR

-- every path opened is short enough for the strings of open_client_pipe
def ShortDirs (t : SysTrace) : Prop := ∀ x ∈ openCalls t, x.1.dir.utf8ByteSize ≤ 1003

theorem FailsIn.notOpened {dir : String} {t : SysTrace} (h : FailsIn dir t)
    (hdir : dir.utf8ByteSize ≤ 1003) : NotOpened t ∧ ShortDirs t := by
  rcases h with ⟨fd, hfd, rfl⟩ | ⟨fd, fd', hfd, hfd', rfl⟩
  · exact ⟨.request hfd, List.forall_mem_singleton.mpr hdir⟩
  · exact ⟨.reply hfd hfd', List.forall_mem_cons.mpr ⟨hdir, List.forall_mem_singleton.mpr hdir⟩⟩

theorem NotOpened.failsIn {t : SysTrace} (h : NotOpened t) (hshort : ShortDirs t) :
    t = [] ∨ ∃ dir, dir.utf8ByteSize ≤ 1003 ∧ FailsIn dir t := by
  cases h with
  | noPath => exact Or.inl rfl
  | @request dir fd hfd =>
      have hdir : dir.utf8ByteSize ≤ 1003 := hshort _ (List.mem_cons_self ..)
      exact Or.inr ⟨dir, hdir, Or.inl ⟨fd, hfd, rfl⟩⟩
  | @reply dir fd fd' hfd hfd' =>
      have hdir : dir.utf8ByteSize ≤ 1003 := hshort _ (List.mem_cons_self ..)
      exact Or.inr ⟨dir, hdir, Or.inr ⟨fd, fd', hfd, hfd', rfl⟩⟩

theorem openClientPipe_performs {f : ℤ → LibM β} {R : ℤ → ℤ → SysTrace → Prop}
    (hfailed : ∀ ret lib t, ret < 0 → ((f ret).Performs lib t r ↔ t = [] ∧ r = none))
    (hopened : ∀ ret lib t, ¬ ret < 0 →
      ((f ret).Performs lib t r ↔ R lib.requestClientPipe lib.replyClientPipe t)) :
    (openClientPipe >>= f).Performs lib t r ↔ (NotOpened t ∧ ShortDirs t ∧ r = none) ∨
      ∃ dir fd fd' t', dir.utf8ByteSize ≤ 1003 ∧ 0 ≤ fd ∧ 0 ≤ fd' ∧
        t = bothOpened dir fd fd' ++ t' ∧ R fd fd' t' := by
  have hboth : ∀ dir, (openBoth dir >>= f).Performs lib t r ↔ _ := fun dir =>
    openBoth_performs hfailed hopened
  constructor
  · intro h
    obtain ⟨env, h⟩ := LibM.performs_getenv.mp h
    cases env with
    | none =>
        obtain ⟨ht, hr⟩ := (hfailed (-1) lib t (by decide)).mp h
        rw [ht]
        exact Or.inl ⟨.noPath, fun _ hx => absurd hx List.not_mem_nil, hr⟩
    | some dir =>
        obtain ⟨hdir, h⟩ := pipeStrings_performs.mp h
        rcases (hboth dir).mp h with ⟨hfails, hr⟩ | ⟨fd, fd', t', hfd, hfd', ht, hR⟩
        · obtain ⟨hclosed, hshort⟩ := hfails.notOpened hdir
          exact Or.inl ⟨hclosed, hshort, hr⟩
        · exact Or.inr ⟨dir, fd, fd', t', hdir, hfd, hfd', ht, hR⟩
  · intro h
    apply LibM.performs_getenv.mpr
    rcases h with ⟨hclosed, hshort, hr⟩ | ⟨dir, fd, fd', t', hdir, hfd, hfd', ht, hR⟩
    · rcases hclosed.failsIn hshort with ht | ⟨dir, hdir, hfails⟩
      · exact ⟨none, (hfailed (-1) lib t (by decide)).mpr ⟨ht, hr⟩⟩
      · refine ⟨some dir, pipeStrings_performs.mpr ⟨hdir, ?_⟩⟩
        exact (hboth dir).mpr (Or.inl ⟨hfails, hr⟩)
    · refine ⟨some dir, pipeStrings_performs.mpr ⟨hdir, ?_⟩⟩
      exact (hboth dir).mpr (Or.inr ⟨fd, fd', t', hfd, hfd', ht, hR⟩)

end Performs

/-! ## The rounds -/

-- the writes and reads of rounds with these results, the first of them the `i`-th
def roundCalls (fd fd' : ℤ) : ℕ → List (ℤ × ReadResult) → SysTrace
  | _, [] => []
  | i, x :: rounds =>
      ⟨.write fd (testPacket i), x.1⟩ :: ⟨.read fd', x.2⟩ :: roundCalls fd fd' (i + 1) rounds

-- no enqueue fails, whatever the dequeues give
def AllEnqueued (rounds : List (ℤ × ReadResult)) : Prop := ∀ x ∈ rounds, x.1 ≠ -1

-- tlp_data after the dequeues of these rounds
def tlpDataAfter (tlpData : SimicsTransaction) (rounds : List (ℤ × ReadResult)) :
    SimicsTransaction :=
  rounds.foldl (fun tlpData x => x.2.store tlpData) tlpData

-- a reply is printed without its data
theorem safeToPrint_reply_iff (p : SimicsTransaction) :
    SafeToPrint p 2 ↔ p.simType.toNat < hosttype.length :=
  and_iff_left fun h => absurd h (by rw [hasData]; exact Bool.false_ne_true)

/-- `n` rounds from the `i`-th on and then calls that meet `R`; or fewer, with an enqueue that fails
at the end or with a reply whose print strays. -/
inductive RoundsThen (fd fd' : ℤ) (R : SysTrace → Prop) (ends strays : Prop) (n i : ℕ)
    (tlpData : SimicsTransaction) : SysTrace → Prop
  | failed (rounds : List (ℤ × ReadResult)) : rounds.length < n → AllEnqueued rounds → ends →
      RoundsThen fd fd' R ends strays n i tlpData (roundCalls fd fd' i rounds ++
        [⟨.write fd (testPacket (i + rounds.length)), (-1 : ℤ)⟩])
  | strayed (rounds : List (ℤ × ReadResult)) : rounds ≠ [] → rounds.length ≤ n →
      AllEnqueued rounds → ¬ SafeToPrint (tlpDataAfter tlpData rounds) 2 → strays →
      RoundsThen fd fd' R ends strays n i tlpData (roundCalls fd fd' i rounds)
  | done (rounds : List (ℤ × ReadResult)) {t : SysTrace} : rounds.length = n →
      AllEnqueued rounds → R t →
      RoundsThen fd fd' R ends strays n i tlpData (roundCalls fd fd' i rounds ++ t)

section Rounds

variable {fd fd' : ℤ} {R : SysTrace → Prop} {ends strays : Prop} {n i : ℕ}
  {tlpData : SimicsTransaction} {t : SysTrace}

theorem roundsThen_zero : RoundsThen fd fd' R ends strays 0 i tlpData t ↔ R t := by
  constructor
  · intro h
    cases h with
    | failed _ hlen => exact absurd hlen (Nat.not_lt_zero _)
    | strayed _ hne hlen => exact absurd (List.length_eq_zero_iff.mp (Nat.le_zero.mp hlen)) hne
    | done _ hlen _ hR =>
        rw [List.length_eq_zero_iff.mp hlen]
        exact hR
  · intro hR
    exact .done [] rfl (fun _ hx => absurd hx List.not_mem_nil) hR

/-- One round more: the enqueue, the dequeue, and the print of what it stored. -/
theorem roundsThen_succ : RoundsThen fd fd' R ends strays (n + 1) i tlpData t ↔
    ∃ (retval : ℤ) (t' : SysTrace), t = ⟨.write fd (testPacket i), retval⟩ :: t' ∧
      if retval = -1 then t' = [] ∧ ends
      else ∃ (x : ReadResult) (t'' : SysTrace), t' = ⟨.read fd', x⟩ :: t'' ∧
        (RoundsThen fd fd' R ends strays n (i + 1) (x.store tlpData) t'' ∨
          ¬ SafeToPrint (x.store tlpData) 2 ∧ t'' = [] ∧ strays) := by
  have hpos : ∀ (x : ℤ × ReadResult) (rounds : List (ℤ × ReadResult)),
      i + (x :: rounds).length = i + 1 + rounds.length := by
    intro x rounds
    rw [List.length_cons]
    omega
  constructor
  · intro h
    cases h with
    | failed rounds hlen hall hends =>
        cases rounds with
        | nil =>
            refine ⟨-1, [], rfl, ?_⟩
            rw [if_pos rfl]
            exact ⟨rfl, hends⟩
        | cons x rounds =>
            obtain ⟨hx, hrest⟩ := List.forall_mem_cons.mp hall
            refine ⟨x.1, _, rfl, ?_⟩
            rw [if_neg hx, hpos]
            exact ⟨x.2, _, rfl, Or.inl (.failed _ (Nat.lt_of_succ_lt_succ hlen) hrest hends)⟩
    | strayed rounds hne hlen hall hbeyond hstrays =>
        cases rounds with
        | nil => exact absurd rfl hne
        | cons x rounds =>
            obtain ⟨hx, hrest⟩ := List.forall_mem_cons.mp hall
            refine ⟨x.1, _, rfl, ?_⟩
            rw [if_neg hx]
            refine ⟨x.2, _, rfl, ?_⟩
            -- the reply that is printed last is this one or a later one
            cases rounds with
            | nil => exact Or.inr ⟨hbeyond, rfl, hstrays⟩
            | cons y rounds =>
                exact Or.inl (.strayed _ (List.cons_ne_nil _ _) (Nat.le_of_succ_le_succ hlen) hrest
                  hbeyond hstrays)
    | done rounds hlen hall hR =>
        cases rounds with
        | nil => cases hlen
        | cons x rounds =>
            obtain ⟨hx, hrest⟩ := List.forall_mem_cons.mp hall
            refine ⟨x.1, _, rfl, ?_⟩
            rw [if_neg hx]
            exact ⟨x.2, _, rfl, Or.inl (.done _ (Nat.succ.inj hlen) hrest hR)⟩
  · rintro ⟨retval, t', ht, hrest⟩
    by_cases hretval : retval = -1
    · rw [if_pos hretval] at hrest
      rw [ht, hrest.1, hretval]
      exact .failed [] (Nat.succ_pos n) (fun _ hx => absurd hx List.not_mem_nil)
        hrest.2
    · rw [if_neg hretval] at hrest
      obtain ⟨x, t'', ht', hlater⟩ := hrest
      have hcons : ∀ rounds, AllEnqueued rounds → AllEnqueued ((retval, x) :: rounds) :=
        fun rounds hall => List.forall_mem_cons.mpr ⟨hretval, hall⟩
      rw [ht, ht']
      rcases hlater with hlater | ⟨hbeyond, hnil, hstrays⟩
      · cases hlater with
        | failed rounds hlen hall hends =>
            rw [← hpos (retval, x) rounds]
            exact .failed ((retval, x) :: rounds) (Nat.succ_lt_succ hlen)
              (hcons rounds hall) hends
        | strayed rounds hne hlen hall hbeyond hstrays =>
            exact .strayed ((retval, x) :: rounds) (List.cons_ne_nil _ _)
              (Nat.succ_le_succ hlen) (hcons rounds hall) hbeyond hstrays
        | done rounds hlen hall hR =>
            exact .done ((retval, x) :: rounds) (congrArg _ hlen) (hcons rounds hall) hR
      · rw [hnil]
        exact .strayed [(retval, x)] (List.cons_ne_nil _ _) (Nat.le_add_left 1 n)
          (hcons [] fun _ hx => absurd hx List.not_mem_nil) hbeyond hstrays

end Rounds

theorem xactions_performs {n i : ℕ} {testPkt tlpData : SimicsTransaction} {lib : DeviceLib}
    {f : Option (SimicsTransaction × SimicsTransaction) → LibM β} {t : SysTrace} {r : Option β}
    {R : SysTrace → Prop} {strays : Prop}
    (hpkt : ∀ j, fillTestPkt testPkt j = fillTestPkt .zero j)
    (hnone : ∀ lib t, (f none).Performs lib t r ↔ t = [] ∧ strays)
    (hsome : ∀ pkts lib' t, lib.Agrees lib' →
      pkts.1 = (if n = 0 then testPkt else testPacket (i + n - 1)) →
      ((f (some pkts)).Performs lib' t r ↔ R t)) :
    (xactions n (UInt32.ofNat i) testPkt tlpData >>= f).Performs lib t r ↔
      RoundsThen lib.requestClientPipe lib.replyClientPipe R (r = none) strays n i tlpData t := by
  induction n generalizing i testPkt tlpData lib t with
  | zero =>
      rw [roundsThen_zero, xactions, pure_bind]
      exact hsome (testPkt, tlpData) lib t (.refl lib) rfl
  | succ n ih =>
      rw [roundsThen_succ, xactions, hpkt, ← testPacket, bind_assoc,
        printBounded_bind (testPacket_safeToPrint i 1)]
      refine simicsPrintFifoPktDataAndLog_logOnly.performs simicsPrintFifoPktDataAndLog_plain
        fun _ lib₁ hlib₁ => ?_
      dsimp only
      rw [bind_assoc, enqueRequestClient_performs, hlib₁.2.1]
      apply exists_congr
      intro retval
      apply exists_congr
      intro t'
      apply and_congr_right
      intro _
      by_cases hretval : retval = -1
      · rw [if_pos hretval, if_pos hretval]
        exact LibM.performs_exit
      · rw [if_neg hretval, if_neg hretval]
        dsimp only
        rw [bind_assoc, dequeReplyRequestClient_performs, hlib₁.2.2]
        apply exists_congr
        intro x
        apply exists_congr
        intro t''
        apply and_congr_right
        intro _
        rw [bind_assoc]
        refine printBounded_performs (fun _ lib₂ hlib₂ => ?_) (hnone lib₁ t'')
        have hagree := hlib₁.trans hlib₂
        have hnext : UInt32.ofNat i + 1 = UInt32.ofNat (i + 1) := (UInt32.ofNat_add i 1).symm
        dsimp only
        rw [hnext, ← hagree.2.1, ← hagree.2.2]
        apply ih (fillTestPkt_testPacket i)
        intro pkts lib' t₁ hlib' hlast
        apply hsome pkts lib' t₁ (hagree.trans hlib')
        rw [hlast, if_neg (Nat.succ_ne_zero n)]
        by_cases hn : n = 0
        · rw [if_pos hn, hn]
          rfl
        · rw [if_neg hn]
          congr 1
          omega

/-! ## The whole of main -/

-- the last packet; main ends with whether its enqueue failed
def StopCalls (fd : ℤ) (r : Option TestEnd) (t : SysTrace) : Prop :=
  ∃ retval : ℤ, t = [⟨.write fd stopPacket, retval⟩] ∧
    r = some (.returns (if retval = -1 then 1 else 0))

/-- The path in CXL_RELAY_SERVER_PATH and the one in CXL_RELAY_LOG_PATH fit the buffers that they
are copied to; the name of the log takes 17 bytes of the 2096 with its slash. -/
structure PathsFitTest (dir p : String) : Prop where
  server : dir.utf8ByteSize ≤ 1003
  log : p.utf8ByteSize ≤ 2078

/-- The opens, reads and writes of `main` with their results, and how it ends.  A print strays at
the reply of the last of the rounds, where `sim_type` is beyond `hosttype` and `localtime` gives a
time. -/
inductive TestCalls : SysTrace → Option TestEnd → Prop
  | notOpened {t : SysTrace} : NotOpened t → ShortDirs t → TestCalls t none
  | noLog {dir p : String} {fd fd' : ℤ} : PathsFitTest dir p → 0 ≤ fd → 0 ≤ fd' →
      TestCalls (bothOpened dir fd fd' ++ [⟨.fopen (p ++ "/" ++ "testhost_log.txt"), false⟩])
        (some (.returns (-1)))
  | enqueueFailed {dir p : String} {fd fd' : ℤ} {rounds : List (ℤ × ReadResult)} :
      PathsFitTest dir p → 0 ≤ fd → 0 ≤ fd' → rounds.length < testhostXactions →
      AllEnqueued rounds →
      TestCalls (bothOpened dir fd fd' ++ ⟨.fopen (p ++ "/" ++ "testhost_log.txt"), true⟩ ::
        (roundCalls fd fd' 0 rounds ++ [⟨.write fd (testPacket rounds.length), (-1 : ℤ)⟩])) none
  | strayed {dir p : String} {fd fd' : ℤ} {rounds : List (ℤ × ReadResult)} :
      PathsFitTest dir p → 0 ≤ fd → 0 ≤ fd' → rounds ≠ [] → rounds.length ≤ testhostXactions →
      AllEnqueued rounds →
      hosttype.length ≤ (tlpDataAfter .zero rounds).simType.toNat →
      TestCalls (bothOpened dir fd fd' ++ ⟨.fopen (p ++ "/" ++ "testhost_log.txt"), true⟩ ::
        roundCalls fd fd' 0 rounds) (some .strays)
  | finished {dir p : String} {fd fd' retval : ℤ} {rounds : List (ℤ × ReadResult)} :
      PathsFitTest dir p → 0 ≤ fd → 0 ≤ fd' → rounds.length = testhostXactions →
      AllEnqueued rounds →
      TestCalls (bothOpened dir fd fd' ++ ⟨.fopen (p ++ "/" ++ "testhost_log.txt"), true⟩ ::
        (roundCalls fd fd' 0 rounds ++ [⟨.write fd stopPacket, retval⟩]))
        (some (.returns (if retval = -1 then 1 else 0)))

section Main

variable {lib : DeviceLib} {t : SysTrace} {r : Option TestEnd}

theorem stopSimulation_performs : (stopSimulation (testPacket (testhostXactions - 1)) >>=
      fun ret => return TestEnd.returns ret).Performs lib t r ↔
    StopCalls lib.requestClientPipe r t := by
  rw [stopSimulation, bind_assoc, enqueRequestClient_performs, StopCalls]
  apply exists_congr
  intro retval
  have hresult : (if (if retval = -1 then (none : Option SimicsTransaction)
      else some stopPacket).isNone then (1 : ℤ) else 0) = if retval = -1 then 1 else 0 := by
    by_cases hretval : retval = -1
    · rw [if_pos hretval, if_pos hretval]
      rfl
    · rw [if_neg hretval, if_neg hretval]
      rfl
  -- the times are for the log
  have hend : ∀ t', ((do
      printTimestamp
      printTimestamp
      logPrint
      return if (if retval = -1 then (none : Option SimicsTransaction)
        else some stopPacket).isNone then (1 : ℤ) else 0 : LibM ℤ) >>=
        fun ret => return TestEnd.returns ret).Performs lib t' r ↔
      t' = [] ∧ r = some (.returns (if retval = -1 then 1 else 0)) := by
    intro t'
    simp only [bind_assoc, pure_bind]
    refine printTimestamp_logOnly.performs printTimestamp_plain fun _ lib₁ _ => ?_
    refine printTimestamp_logOnly.performs printTimestamp_plain fun _ lib₂ _ => ?_
    refine logPrint_logOnly.performs logPrint_plain fun _ lib₃ _ => ?_
    rw [hresult]
    exact LibM.performs_pure
  constructor
  · rintro ⟨t', ht, hrest⟩
    obtain ⟨hnil, hr⟩ := (hend t').mp hrest
    rw [hnil] at ht
    exact ⟨ht, hr⟩
  · rintro ⟨ht, hr⟩
    exact ⟨[], ht, (hend []).mpr ⟨rfl, hr⟩⟩

-- the rounds from the first on and the last packet
theorem allXactions_performs : (do
      match ← xactions testhostXactions 0 .zero .zero with
      | none => return TestEnd.strays
      | some pkts => return .returns (← stopSimulation pkts.1) : LibM TestEnd).Performs lib t r ↔
    RoundsThen lib.requestClientPipe lib.replyClientPipe (StopCalls lib.requestClientPipe r)
      (r = none) (r = some .strays) testhostXactions 0 .zero t := by
  apply xactions_performs (i := 0) fun _ => rfl
  · exact fun lib t => LibM.performs_pure
  · intro pkts lib' t₁ hlib' hlast
    dsimp only
    rw [hlast, if_neg (by decide), Nat.zero_add, stopSimulation_performs, hlib'.2.1]

theorem testhostLogfile_fit_iff (p : String) :
    FitsBuf (.testhostLogfile, p ++ "/" ++ "testhost_log.txt") ↔ p.utf8ByteSize ≤ 2078 := by
  have hslash : "/".utf8ByteSize = 1 := by decide
  have hname : "testhost_log.txt".utf8ByteSize = 16 := by decide
  rw [FitsBuf, StringBuf.size, String.utf8ByteSize_append, String.utf8ByteSize_append, hslash,
    hname]
  omega

-- the log is opened, and where that succeeds the rounds begin
def LogThenRounds (p : String) (fd fd' : ℤ) (r : Option TestEnd) (t : SysTrace) : Prop :=
  ∃ fp t', t = ⟨.fopen (p ++ "/" ++ "testhost_log.txt"), fp⟩ :: t' ∧
    if fp then RoundsThen fd fd' (StopCalls fd r) (r = none) (r = some .strays)
      testhostXactions 0 .zero t'
    else t' = [] ∧ r = some (.returns (-1))

theorem testhostMain_performs (lib : DeviceLib) : testhostMain.Performs lib t r ↔
    (NotOpened t ∧ ShortDirs t ∧ r = none) ∨
      ∃ dir p fd fd' t', PathsFitTest dir p ∧ 0 ≤ fd ∧ 0 ≤ fd' ∧
        t = bothOpened dir fd fd' ++ t' ∧ LogThenRounds p fd fd' r t' := by
  have hmain : testhostMain.Performs lib t r ↔ ∃ p : String, p.utf8ByteSize ≤ 4094 ∧
      (NotOpened t ∧ ShortDirs t ∧ r = none ∨
        ∃ dir fd fd' t', dir.utf8ByteSize ≤ 1003 ∧ 0 ≤ fd ∧ 0 ≤ fd' ∧
          t = bothOpened dir fd fd' ++ t' ∧ p.utf8ByteSize ≤ 2078 ∧
            LogThenRounds p fd fd' r t') := by
    rw [testhostMain]
    apply initLog_performs
    intro ret p
    apply openClientPipe_performs
    · intro ret' lib' t' hret'
      rw [if_pos hret']
      exact LibM.performs_exit
    · intro ret' lib' t' hret'
      rw [if_neg hret', LibM.performs_strbuf, testhostLogfile_fit_iff]
      apply and_congr_right
      intro _
      rw [LibM.performs_io rfl]
      apply exists_congr
      intro fp
      apply exists_congr
      intro t''
      apply and_congr_right
      intro _
      cases fp with
      | false => exact LibM.performs_pure
      | true => exact allXactions_performs
  rw [hmain]
  constructor
  · rintro ⟨p, -, hclosed | ⟨dir, fd, fd', t', hdir, hfd, hfd', ht, hp, hrest⟩⟩
    · exact Or.inl hclosed
    · exact Or.inr ⟨dir, p, fd, fd', t', ⟨hdir, hp⟩, hfd, hfd', ht, hrest⟩
  · rintro (hclosed | ⟨dir, p, fd, fd', t', hfit, hfd, hfd', ht, hrest⟩)
    · exact ⟨"", by decide, Or.inl hclosed⟩
    · -- a path that fits with the name of the log fits cxl_relay_log_path
      exact ⟨p, hfit.log.trans (by decide),
        Or.inr ⟨dir, fd, fd', t', hfit.server, hfd, hfd', ht, hfit.log, hrest⟩⟩

theorem testCalls_iff : TestCalls t r ↔ (NotOpened t ∧ ShortDirs t ∧ r = none) ∨
    ∃ dir p fd fd' t', PathsFitTest dir p ∧ 0 ≤ fd ∧ 0 ≤ fd' ∧
      t = bothOpened dir fd fd' ++ t' ∧ LogThenRounds p fd fd' r t' := by
  constructor
  · intro h
    cases h with
    | notOpened hclosed hshort => exact Or.inl ⟨hclosed, hshort, rfl⟩
    | noLog hfit hfd hfd' =>
        exact Or.inr ⟨_, _, _, _, _, hfit, hfd, hfd', rfl, false, [], rfl, rfl, rfl⟩
    | @enqueueFailed dir p fd fd' rounds hfit hfd hfd' hlen hall =>
        refine Or.inr ⟨dir, p, fd, fd', _, hfit, hfd, hfd', rfl, true, _, rfl, ?_⟩
        rw [← Nat.zero_add rounds.length]
        exact .failed rounds hlen hall rfl
    | @strayed dir p fd fd' rounds hfit hfd hfd' hne hlen hall hbeyond =>
        refine Or.inr ⟨dir, p, fd, fd', _, hfit, hfd, hfd', rfl, true, _, rfl, ?_⟩
        rw [← Nat.not_lt, ← safeToPrint_reply_iff] at hbeyond
        exact .strayed rounds hne hlen hall hbeyond rfl
    | @finished dir p fd fd' retval rounds hfit hfd hfd' hlen hall =>
        refine Or.inr ⟨dir, p, fd, fd', _, hfit, hfd, hfd', rfl, true, _, rfl, ?_⟩
        exact .done rounds hlen hall ⟨retval, rfl, rfl⟩
  · rintro (⟨hclosed, hshort, hr⟩ |
      ⟨dir, p, fd, fd', t', hfit, hfd, hfd', ht, fp, t'', ht', hrest⟩)
    · rw [hr]
      exact .notOpened hclosed hshort
    · rw [ht, ht']
      cases fp with
      | false =>
          rw [if_neg Bool.false_ne_true] at hrest
          rw [hrest.1, hrest.2]
          exact .noLog hfit hfd hfd'
      | true =>
          rw [if_pos rfl] at hrest
          cases hrest with
          | failed rounds hlen hall hr =>
              rw [hr, Nat.zero_add]
              exact .enqueueFailed hfit hfd hfd' hlen hall
          | strayed rounds hne hlen hall hbeyond hr =>
              rw [safeToPrint_reply_iff, Nat.not_lt] at hbeyond
              rw [hr]
              exact .strayed hfit hfd hfd' hne hlen hall hbeyond
          | done rounds hlen hall hstop =>
              obtain ⟨retval, hstop, hr⟩ := hstop
              rw [hstop, hr]
              exact .finished hfit hfd hfd' hlen hall

/-- The calls of `main` with strings that fit their buffers are these, and whatever a list of them
gives, `main` can make them. -/
theorem testhost_calls (lib : DeviceLib) (t : SysTrace) (r : Option TestEnd) :
    (∃ t' o, (testhostMain.run lib).Trace t' o ∧ (∀ x ∈ strings t', FitsBuf x) ∧
        ioCalls t' = t ∧ o.map Prod.fst = r) ↔
      TestCalls t r := by
  rw [testCalls_iff, ← testhostMain_performs lib]
  simp only [strings_fit_iff]
  rfl

-- a first reply with sim_type 4
example : TestCalls (bothOpened "pipes" 3 4 ++
    ⟨.fopen ("." ++ "/" ++ "testhost_log.txt"), true⟩ :: roundCalls 3 4 0
      [(simicsPktSize, .packet { SimicsTransaction.zero with simType := 4 })]) (some .strays) := by
  refine .strayed ⟨by decide, by decide⟩ (by decide) (by decide) (List.cons_ne_nil _ _) (by decide)
    (List.forall_mem_singleton.mpr (by decide)) ?_
  change hosttype.length ≤ ((ReadResult.packet _).store _).simType.toNat
  rw [ReadResult.store_packet]
  decide

end Main

end SimConnect
