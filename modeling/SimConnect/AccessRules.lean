import SimConnect.CosimAccess

/-!
# Rules for the cosim access

Most calls of an access only write the log.  A program of such calls keeps every assertion that
they keep, so the rule for `simics_send_access_to_cosim` asks only what the opens, the write and
the read do to the world at hand.
-/

open SimConnect.Foundation

namespace SimConnect

/-! ## Preconditions of library programs -/

variable {W : Type} {α β : Type}

abbrev SysWorld (W : Type) := World SysCall SysCall.Ret W

namespace LibM

def wp (e : SysWorld W) (I : W → Prop) (m : LibM α) (Q : α → DeviceLib → W → Prop)
    (lib : DeviceLib) (w : W) : Prop :=
  (m.run lib).wp e I (fun x w => Q x.1 x.2 w) w

variable {e : SysWorld W} {I : W → Prop} {lib : DeviceLib} {w : W}

theorem wp_mono {m : LibM α} {Q Q' : α → DeviceLib → W → Prop}
    (hQ : ∀ a lib w, Q a lib w → Q' a lib w) (h : wp e I m Q lib w) : wp e I m Q' lib w := by
  have hQ' : ∀ (x : α × DeviceLib) w, Q x.1 x.2 w → Q' x.1 x.2 w := fun x w => hQ x.1 x.2 w
  exact Prog.wp_mono hQ' h

theorem wp_bind {m : LibM α} {f : α → LibM β} {Q : β → DeviceLib → W → Prop}
    (h : wp e I m (fun a lib w => wp e I (f a) Q lib w) lib w) : wp e I (m >>= f) Q lib w :=
  Prog.wp_bind h

theorem wp_pure {a : α} {P : W → Prop} {Q : α → DeviceLib → W → Prop} (hP : Steady e I P)
    (hQ : ∀ w, P w → Q a lib w) (hw : P w) : wp e I (pure a) Q lib w :=
  Prog.wp_ret hP hQ hw

-- reading and writing the library variables is no call
theorem wp_get {f : DeviceLib → LibM β} {Q : β → DeviceLib → W → Prop}
    (h : wp e I (f lib) Q lib w) : wp e I (get >>= f) Q lib w := h

theorem wp_modify {g : DeviceLib → DeviceLib} {f : PUnit → LibM β} {Q : β → DeviceLib → W → Prop}
    (h : wp e I (f ⟨⟩) Q (g lib) w) : wp e I (modify g >>= f) Q lib w := h

theorem wp_sys {c : SysCall} {P : W → Prop} {P' : c.Ret → W → Prop}
    {Q : c.Ret → DeviceLib → W → Prop} (hP : Steady e I P) (hP' : ∀ r, Steady e I (P' r))
    (hcall : ∀ w r w', P w → e.call w c r w' → P' r w') (hQ : ∀ r w, P' r w → Q r lib w)
    (hw : P w) : wp e I (sys c) Q lib w := by
  refine Prog.wp_call hP (fun w hw r w' hr => ?_) hw
  exact Prog.wp_ret (hP' r) (fun w hw => hQ r w hw) (hcall w r w' hw hr)

end LibM

/-! ## Quiet programs -/

-- calls that touch neither a pipe nor a descriptor of one
def SysCall.Quiet : SysCall → Prop
  | .open _ | .close _ | .write _ _ | .read _ => False
  | _ => True

/-- An assertion that neither the environment nor a quiet call changes. -/
structure Indifferent (e : SysWorld W) (I P : W → Prop) : Prop extends Steady e I P where
  quiet : ∀ w c r w', c.Quiet → e.call w c r w' → P w → P w'

-- the variables that decide what an access sends and where
def DeviceLib.Agrees (lib lib' : DeviceLib) : Prop :=
  lib'.simicsPacketNo = lib.simicsPacketNo ∧ lib'.requestClientPipe = lib.requestClientPipe ∧
    lib'.replyClientPipe = lib.replyClientPipe

theorem DeviceLib.Agrees.refl (lib : DeviceLib) : lib.Agrees lib := ⟨rfl, rfl, rfl⟩

theorem DeviceLib.Agrees.trans {lib₁ lib₂ lib₃ : DeviceLib} (h : lib₁.Agrees lib₂)
    (h' : lib₂.Agrees lib₃) : lib₁.Agrees lib₃ :=
  ⟨h'.1.trans h.1, h'.2.1.trans h.2.1, h'.2.2.trans h.2.2⟩

/-- A program that makes quiet calls only and leaves the counter and the descriptors alone. -/
def LibM.Quiet (m : LibM α) : Prop :=
  ∀ (W : Type) (e : SysWorld W) (I P : W → Prop), Indifferent e I P → ∀ lib w, P w →
    m.wp e I (fun _ lib' w' => P w' ∧ lib.Agrees lib') lib w

namespace LibM.Quiet

theorem bind {m : LibM α} {f : α → LibM β} (hm : m.Quiet) (hf : ∀ a, (f a).Quiet) :
    (m >>= f).Quiet := by
  intro W e I P hP lib w hw
  refine wp_bind (wp_mono (fun a lib₁ w₁ h₁ => ?_) (hm W e I P hP lib w hw))
  refine wp_mono (fun b lib₂ w₂ h₂ => ?_) (hf a W e I P hP lib₁ w₁ h₁.1)
  exact ⟨h₂.1, h₁.2.trans h₂.2⟩

theorem pure (a : α) : LibM.Quiet (Pure.pure a) := fun _ _ _ _ hP lib _ hw =>
  wp_pure hP.toSteady (fun _ hw => ⟨hw, .refl lib⟩) hw

theorem get {f : DeviceLib → LibM β} (hf : ∀ lib, (f lib).Quiet) : (get >>= f).Quiet :=
  fun W e I P hP lib w hw => wp_get (hf lib W e I P hP lib w hw)

theorem modify {g : DeviceLib → DeviceLib} (hg : ∀ lib : DeviceLib, lib.Agrees (g lib))
    {f : PUnit → LibM β}
    (hf : (f ⟨⟩).Quiet) : (modify g >>= f).Quiet := fun W e I P hP lib w hw =>
  wp_modify (wp_mono (fun _ _ _ h => ⟨h.1, (hg lib).trans h.2⟩) (hf W e I P hP (g lib) w hw))

theorem sys {c : SysCall} (hc : c.Quiet) : (SimConnect.sys c).Quiet := fun _ _ _ _ hP lib _ hw =>
  wp_sys hP.toSteady (fun _ => hP.toSteady) (fun w r w' hw hr => hP.quiet w c r w' hc hr hw)
    (fun _ _ hw => ⟨hw, .refl lib⟩) hw

theorem exit : LibM.Quiet (SimConnect.exit : LibM α) := fun _ _ _ _ hP _ _ hw =>
  Prog.wp_halt hP.toSteady hw

end LibM.Quiet

/-! ## Programs that only write the log -/

-- the calls with an effect outside the process, or that give it a descriptor
def SysCall.isIo : SysCall → Bool
  | .fopen _ | .open _ | .close _ | .write _ _ | .read _ => true
  | _ => false

theorem SysCall.quiet_of_isIo {c : SysCall} (hc : c.isIo = false) : c.Quiet := by
  cases c with
  | «open» path => cases hc
  | close fd => cases hc
  | write fd p => cases hc
  | read fd => cases hc
  | _ => trivial

/-- A program that makes no such call, finishes, and leaves the counter and the descriptors alone.
-/
def LibM.LogOnly (m : LibM α) : Prop :=
  ∀ lib : DeviceLib, (m.run lib).Confined (fun c => c.isIo = false) fun x => lib.Agrees x.2

namespace LibM.LogOnly

theorem bind {m : LibM α} {f : α → LibM β} (hm : m.LogOnly) (hf : ∀ a, (f a).LogOnly) :
    (m >>= f).LogOnly := by
  intro lib
  refine Prog.Confined.bind (hm lib) fun x hx => ?_
  exact (hf x.1 x.2).mono fun y hy => hx.trans hy

theorem pure (a : α) : LibM.LogOnly (Pure.pure a) := fun lib => .refl lib

theorem get {f : DeviceLib → LibM β} (hf : ∀ lib, (f lib).LogOnly) : (get >>= f).LogOnly :=
  fun lib => hf lib lib

theorem sys {c : SysCall} (hc : c.isIo = false) : (SimConnect.sys c).LogOnly :=
  fun lib => ⟨hc, fun _ => .refl lib⟩

theorem quiet {m : LibM α} (hm : m.LogOnly) : m.Quiet := fun _ _ _ _ hP lib _ hw =>
  (hm lib).wp hP.toSteady
    (fun w c r w' hc hcall hw => hP.quiet w c r w' (SysCall.quiet_of_isIo hc) hcall hw) hw

end LibM.LogOnly

section Log

theorem logPrint_logOnly : logPrint.LogOnly := .get fun _ => .sys rfl

theorem logFlush_logOnly : logFlush.LogOnly := .get fun _ => .sys rfl

theorem logVerbose_logOnly (verbose : Bool) : (logVerbose verbose).LogOnly := by
  cases verbose with
  | false => exact .pure ()
  | true => exact .bind logPrint_logOnly fun _ => logFlush_logOnly

theorem simicsPrintFifoPktDataAndLog_logOnly : simicsPrintFifoPktDataAndLog.LogOnly := by
  apply LibM.LogOnly.bind (.sys rfl)
  intro tm
  cases tm with
  | false => exact .pure _
  | true =>
      apply LibM.LogOnly.get
      intro lib
      cases lib.logfp with
      | false => exact .pure _
      | true => exact .bind logPrint_logOnly fun _ => .bind logFlush_logOnly fun _ => .pure _

theorem printTimestamp_logOnly : printTimestamp.LogOnly := by
  apply LibM.LogOnly.bind (.sys rfl)
  intro tm
  cases tm with
  | false => exact .pure _
  | true => exact logPrint_logOnly

theorem reportReply_logOnly (verbose : Bool) : (reportReply verbose).LogOnly := by
  apply LibM.LogOnly.bind (logVerbose_logOnly verbose)
  intro _
  cases verbose with
  | false =>
      exact .bind simicsPrintFifoPktDataAndLog_logOnly fun _ => .bind logPrint_logOnly fun _ =>
        .bind logFlush_logOnly fun _ => .pure _
  | true =>
      exact .bind logPrint_logOnly fun _ => .bind simicsPrintFifoPktDataAndLog_logOnly fun _ =>
        .bind logPrint_logOnly fun _ => .bind logFlush_logOnly fun _ =>
        .bind logFlush_logOnly fun _ => .bind logPrint_logOnly fun _ => logFlush_logOnly

theorem openRelayLog_quiet : openRelayLog.Quiet := by
  refine .bind (.sys trivial) fun env => ?_
  cases env with
  | none => exact .bind (.sys trivial) fun _ => .pure _
  | some p =>
      refine .bind (.sys trivial) fun _ => .bind (.sys trivial) fun _ =>
        .bind (.sys trivial) fun _ => .get fun lib => ?_
      have hend : LibM.Quiet (do if !(← get).logfp then exit else return (0 : ℤ)) := by
        refine .get fun lib => ?_
        cases lib.logfp with
        | false => exact .exit
        | true => exact .pure _
      cases lib.logfp with
      | false =>
          refine .bind (.sys trivial) fun fp => .modify ?_ hend
          exact fun _ => ⟨rfl, rfl, rfl⟩
      | true => exact hend

theorem reportEnqueue_quiet (verbose : Bool) (p : Option SimicsTransaction) :
    (reportEnqueue verbose p).Quiet := by
  cases p with
  | some p =>
      exact .bind (logVerbose_logOnly verbose).quiet fun _ =>
        .bind simicsPrintFifoPktDataAndLog_logOnly.quiet fun _ => .pure _
  | none =>
      cases verbose with
      | false => exact .pure _
      | true =>
          exact .bind logPrint_logOnly.quiet fun _ => .bind logFlush_logOnly.quiet fun _ => .exit

end Log

/-! ## The access -/

namespace LibM

variable {e : SysWorld W} {I : W → Prop} {lib : DeviceLib} {w : W}

theorem wp_quiet {m : LibM α} {f : α → LibM β} {P : W → Prop} {Q : β → DeviceLib → W → Prop}
    (hm : m.Quiet) (hP : Indifferent e I P) (hw : P w)
    (hf : ∀ a lib' w', lib.Agrees lib' → P w' → wp e I (f a) Q lib' w') :
    wp e I (m >>= f) Q lib w :=
  wp_bind (wp_mono (fun a lib' w' h => hf a lib' w' h.2 h.1) (hm W e I P hP lib w hw))

theorem wp_sys_bind {c : SysCall} {f : c.Ret → LibM β} {P : W → Prop} {Q : β → DeviceLib → W → Prop}
    (hP : Steady e I P) (hw : P w)
    (hcall : ∀ w r w', P w → e.call w c r w' → wp e I (f r) Q lib w') :
    wp e I (sys c >>= f) Q lib w :=
  Prog.wp_call hP (fun w hw r w' hr => hcall w r w' hw hr) hw

theorem wp_assignPacketNumber {spd : SimicsTransaction} {f : SimicsTransaction → LibM β}
    {Q : β → DeviceLib → W → Prop}
    (h : wp e I (f { spd with packetNumber := lib.simicsPacketNo }) Q
      { lib with simicsPacketNo := lib.simicsPacketNo + 1 } w) :
    wp e I (assignPacketNumber spd >>= f) Q lib w := h

end LibM

/-- What holds of the world at each stage of an access that sends `spd`, and why each pipe call
leads to the next stage: nothing sent, the request pipe open, both open, the request written, the
reply read.  `fails` holds if `open_client_pipe` can fail. -/
structure AccessPlan (e : SysWorld W) (I : W → Prop) (spd : SimicsTransaction) where
  idle : W → Prop
  half : ℤ → W → Prop
  opened : ℤ → ℤ → W → Prop
  sent : ℤ → W → Prop
  done : ReadResult → W → Prop
  fails : Prop
  idle_ind : Indifferent e I idle
  half_ind : ∀ fd, Indifferent e I (half fd)
  opened_ind : ∀ fd fd', Indifferent e I (opened fd fd')
  sent_ind : ∀ fd', Indifferent e I (sent fd')
  done_ind : ∀ r, Indifferent e I (done r)
  path_unset : ∀ w w', e.call w (.getenv .cxlRelayServerPath) none w' → fails
  open_failed : ∀ w path fd w', e.call w (.open path) fd w' → fd < 0 → fails
  open_request : ∀ w dir fd w', idle w → e.call w (.open ⟨dir, .requestClient⟩) fd w' →
    if fd < 0 then idle w' else half fd w'
  open_reply : ∀ w dir fd fd' w', half fd w → e.call w (.open ⟨dir, .replyClient⟩) fd' w' →
    if fd' < 0 then half fd w' else opened fd fd' w'
  close_request : ∀ w fd r w', half fd w → e.call w (.close fd) r w' → idle w'
  write : ∀ w fd fd' r w', opened fd fd' w → e.call w (.write fd spd) r w' → sent fd' w'
  read : ∀ w fd' r w', sent fd' w → e.call w (.read fd') r w' → done r w'

-- the result that stands for no exchange: 0 where the timing ends, -1 where a pipe was not opened
def Access.noExchange (a : Access) (spd : SimicsTransaction) : AccessResult :=
  { retval := if a.timeEndFlag then 0 else -1, spd, rd := a.rd }

theorem Access.noExchange_retval_ne (a : Access) (spd : SimicsTransaction) :
    (a.noExchange spd).retval ≠ simicsPktSize := by
  have hret : ∀ b : Bool, (if b = true then (0 : ℤ) else -1) ≠ simicsPktSize := by decide
  exact hret a.timeEndFlag

/-- How an access that assigned `spd` may end: without an exchange, or with the result of its read.
-/
def AccessPlan.Ends {e : SysWorld W} {I : W → Prop} {spd : SimicsTransaction}
    (plan : AccessPlan e I spd) (a : Access) (res : AccessResult) (w : W) : Prop :=
  (res = a.noExchange spd ∧ (a.timeEndFlag = true ∨ plan.fails) ∧ plan.idle w) ∨
    ∃ r, res = { retval := r.ret, spd, rd := r.store a.rd } ∧ plan.done r w

section Access

variable {e : SysWorld W} {I : W → Prop} {spd : SimicsTransaction} (plan : AccessPlan e I spd)

theorem openClientPipe_wp (lib : DeviceLib) {w : W} (hw : plan.idle w) :
    openClientPipe.wp e I (fun ret lib' w' => lib'.simicsPacketNo = lib.simicsPacketNo ∧
      if ret < 0 then plan.fails ∧ plan.idle w'
      else plan.opened lib'.requestClientPipe lib'.replyClientPipe w') lib w := by
  refine LibM.wp_sys_bind plan.idle_ind.toSteady hw fun w env w₁ hw hgetenv => ?_
  have hw₁ := plan.idle_ind.quiet w _ env w₁ trivial hgetenv hw
  cases env with
  | none =>
      have hfails := plan.path_unset w w₁ hgetenv
      exact LibM.wp_pure plan.idle_ind.toSteady (fun w hw => ⟨rfl, hfails, hw⟩) hw₁
  | some p =>
      refine LibM.wp_quiet (.sys trivial) plan.idle_ind hw₁ fun _ lib₂ w₂ h₂ hw₂ => ?_
      refine LibM.wp_quiet (.sys trivial) plan.idle_ind hw₂ fun _ lib₃ w₃ h₃ hw₃ => ?_
      refine LibM.wp_quiet (.sys trivial) plan.idle_ind hw₃ fun _ lib₄ w₄ h₄ hw₄ => ?_
      refine LibM.wp_quiet (.sys trivial) plan.idle_ind hw₄ fun _ lib₅ w₅ h₅ hw₅ => ?_
      have hno : lib₅.simicsPacketNo = lib.simicsPacketNo :=
        (((h₂.trans h₃).trans h₄).trans h₅).1
      refine LibM.wp_sys_bind plan.idle_ind.toSteady hw₅ fun w fd w' hw hopen => ?_
      have hrequest := plan.open_request w p fd w' hw hopen
      refine LibM.wp_modify ?_
      by_cases hfd : fd < 0
      · have hfails := plan.open_failed w _ fd w' hopen hfd
        rw [if_pos hfd] at hrequest ⊢
        exact LibM.wp_pure plan.idle_ind.toSteady (fun w hw => ⟨hno, hfails, hw⟩) hrequest
      · rw [if_neg hfd] at hrequest ⊢
        refine LibM.wp_sys_bind (plan.half_ind fd).toSteady hrequest fun w fd' w' hw hopen => ?_
        have hreply := plan.open_reply w p fd fd' w' hw hopen
        refine LibM.wp_modify ?_
        by_cases hfd' : fd' < 0
        · have hfails := plan.open_failed w _ fd' w' hopen hfd'
          rw [if_pos hfd'] at hreply ⊢
          refine LibM.wp_sys_bind (plan.half_ind fd).toSteady hreply fun w r w' hw hclose => ?_
          exact LibM.wp_pure plan.idle_ind.toSteady (fun w hw => ⟨hno, hfails, hw⟩)
            (plan.close_request w fd r w' hw hclose)
        · rw [if_neg hfd'] at hreply ⊢
          exact LibM.wp_pure (plan.opened_ind fd fd').toSteady (fun w hw => ⟨hno, hw⟩) hreply

theorem exchange_wp (rd : SimicsTransaction) (verbose : Bool) (lib : DeviceLib) {w : W}
    (hw : plan.opened lib.requestClientPipe lib.replyClientPipe w) :
    (exchange spd rd verbose).wp e I (fun res lib' w' =>
      lib'.simicsPacketNo = lib.simicsPacketNo ∧
        ∃ r, res = { retval := r.ret, spd, rd := r.store rd } ∧ plan.done r w') lib w := by
  refine LibM.wp_bind (LibM.wp_get (LibM.wp_sys_bind (plan.opened_ind _ _).toSteady hw
    fun w retval w' hw hwrite => ?_))
  have hsent := plan.write w _ _ retval w' hw hwrite
  have hind := plan.sent_ind lib.replyClientPipe
  refine LibM.wp_pure hind.toSteady (fun w hw => ?_) hsent
  refine LibM.wp_quiet (reportEnqueue_quiet verbose _) hind hw fun _ lib₁ w₁ h₁ hw₁ => ?_
  refine LibM.wp_quiet (logVerbose_logOnly verbose).quiet hind hw₁ fun _ lib₂ w₂ h₂ hw₂ => ?_
  have h₁₂ := h₁.trans h₂
  refine LibM.wp_bind (LibM.wp_get (LibM.wp_sys_bind hind.toSteady hw₂ fun w r w' hw hread => ?_))
  -- no report has moved the descriptor since the pipes were opened
  rw [h₁₂.2.2] at hread
  have hdone := plan.read w lib.replyClientPipe r w' hw hread
  refine LibM.wp_pure (plan.done_ind r).toSteady (fun w hw => ?_) hdone
  refine LibM.wp_quiet (reportReply_logOnly verbose).quiet (plan.done_ind r) hw
    fun _ lib₃ w₃ h₃ hw₃ => ?_
  refine LibM.wp_modify (LibM.wp_pure (plan.done_ind r).toSteady (fun w hw => ?_) hw₃)
  exact ⟨(h₁₂.trans h₃).1, r, rfl, hw⟩

-- the two ends without an exchange leave the world where it was
theorem endTiming_wp (rd : SimicsTransaction) (lib : DeviceLib) {w : W} (hw : plan.idle w) :
    (endTiming spd rd).wp e I (fun res lib' w' => lib'.simicsPacketNo = lib.simicsPacketNo ∧
      res = { retval := 0, spd, rd } ∧ plan.idle w') lib w := by
  refine LibM.wp_modify ?_
  refine LibM.wp_quiet printTimestamp_logOnly.quiet plan.idle_ind hw fun _ lib₁ w₁ h₁ hw₁ => ?_
  refine LibM.wp_quiet printTimestamp_logOnly.quiet plan.idle_ind hw₁ fun _ lib₂ w₂ h₂ hw₂ => ?_
  refine LibM.wp_quiet logPrint_logOnly.quiet plan.idle_ind hw₂ fun _ lib₃ w₃ h₃ hw₃ => ?_
  refine LibM.wp_pure plan.idle_ind.toSteady (fun w hw => ?_) hw₃
  exact ⟨((h₁.trans h₂).trans h₃).1, rfl, hw⟩

theorem openFailed_wp (rd : SimicsTransaction) (lib : DeviceLib) {w : W} (hw : plan.idle w) :
    (openFailed spd rd).wp e I (fun res lib' w' => lib'.simicsPacketNo = lib.simicsPacketNo ∧
      res = { retval := -1, spd, rd } ∧ plan.idle w') lib w := by
  have hend : ∀ (lib₁ : DeviceLib) (w₁ : W), lib.Agrees lib₁ → plan.idle w₁ →
      LibM.wp e I (do logPrint; logFlush; return AccessResult.mk (-1) spd rd) (fun res lib' w' =>
        lib'.simicsPacketNo = lib.simicsPacketNo ∧
          res = { retval := -1, spd, rd } ∧ plan.idle w') lib₁ w₁ := by
    intro lib₁ w₁ h₁ hw₁
    refine LibM.wp_quiet logPrint_logOnly.quiet plan.idle_ind hw₁ fun _ lib₂ w₂ h₂ hw₂ => ?_
    refine LibM.wp_quiet logFlush_logOnly.quiet plan.idle_ind hw₂ fun _ lib₃ w₃ h₃ hw₃ => ?_
    refine LibM.wp_pure plan.idle_ind.toSteady (fun w hw => ?_) hw₃
    exact ⟨((h₁.trans h₂).trans h₃).1, rfl, hw⟩
  refine LibM.wp_quiet (.sys trivial) plan.idle_ind hw fun env lib₁ w₁ h₁ hw₁ => ?_
  cases env with
  | none =>
      refine LibM.wp_quiet logPrint_logOnly.quiet plan.idle_ind hw₁ fun _ lib₂ w₂ h₂ hw₂ => ?_
      exact hend lib₂ w₂ (h₁.trans h₂) hw₂
  | some p => exact hend lib₁ w₁ h₁ hw₁

theorem accessRest_wp (a : Access) (lib : DeviceLib) {w : W} (hw : plan.idle w) :
    (accessRest a spd).wp e I (fun res lib' w' =>
      lib'.simicsPacketNo = lib.simicsPacketNo ∧ plan.Ends a res w') lib w := by
  rw [accessRest]
  by_cases hend : a.timeEndFlag = true
  · rw [if_pos hend]
    refine LibM.wp_mono ?_ (endTiming_wp plan a.rd lib hw)
    rintro res lib' w' ⟨hno, rfl, hidle⟩
    exact ⟨hno, Or.inl ⟨by rw [Access.noExchange, if_pos hend], Or.inl hend, hidle⟩⟩
  · rw [if_neg hend]
    refine LibM.wp_quiet (logVerbose_logOnly _).quiet plan.idle_ind hw fun _ lib₁ w₁ h₁ hw₁ => ?_
    refine LibM.wp_quiet (logVerbose_logOnly _).quiet plan.idle_ind hw₁ fun _ lib₂ w₂ h₂ hw₂ => ?_
    have h₁₂ := h₁.trans h₂
    refine LibM.wp_bind (LibM.wp_mono (fun ret lib₃ w₃ h₃ => ?_) (openClientPipe_wp plan lib₂ hw₂))
    obtain ⟨hno, hopen⟩ := h₃
    have hno₃ := hno.trans h₁₂.1
    by_cases hret : ret < 0
    · rw [if_pos hret] at hopen ⊢
      refine LibM.wp_mono ?_ (openFailed_wp plan a.rd lib₃ hopen.2)
      rintro res lib' w' ⟨hno', rfl, hidle⟩
      exact ⟨hno'.trans hno₃,
        Or.inl ⟨by rw [Access.noExchange, if_neg hend], Or.inr hopen.1, hidle⟩⟩
    · rw [if_neg hret] at hopen ⊢
      exact LibM.wp_mono (fun res lib' w' h => ⟨h.1.trans hno₃, Or.inr h.2⟩)
        (exchange_wp plan a.rd a.verbose lib₃ hopen)

end Access

/-- The rule for `simics_send_access_to_cosim`: it assigns the next packet number and ends as its
plan says. -/
theorem simicsSendAccessToCosim_wp {e : SysWorld W} {I : W → Prop} (a : Access) (lib : DeviceLib)
    (plan : AccessPlan e I { a.spd with packetNumber := lib.simicsPacketNo }) {w : W}
    (hw : plan.idle w) :
    (simicsSendAccessToCosim a).wp e I (fun res lib' w' =>
      lib'.simicsPacketNo = lib.simicsPacketNo + 1 ∧ plan.Ends a res w') lib w := by
  refine LibM.wp_assignPacketNumber ?_
  refine LibM.wp_quiet openRelayLog_quiet plan.idle_ind hw fun _ lib₁ w₁ h₁ hw₁ => ?_
  have hrest : ∀ lib₂ : DeviceLib, lib₂.simicsPacketNo = lib.simicsPacketNo + 1 →
      (accessRest a { a.spd with packetNumber := lib.simicsPacketNo }).wp e I (fun res lib' w' =>
        lib'.simicsPacketNo = lib.simicsPacketNo + 1 ∧ plan.Ends a res w') lib₂ w₁ := by
    intro lib₂ hno
    exact LibM.wp_mono (fun res lib' w' h => ⟨h.1.trans hno, h.2⟩) (accessRest_wp plan a lib₂ hw₁)
  refine LibM.wp_get ?_
  cases a.timeStartFlag && !lib₁.timeStarted with
  | false => exact hrest lib₁ h₁.1
  | true => exact hrest _ h₁.1

end SimConnect
