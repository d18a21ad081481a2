import SimConnect.AccessRules
import Mathlib.Logic.Function.Basic

/-!
# A host process on a system of named pipes

The device reaches its pipes through descriptors.  Any account of what a `write` or a `read` of a
named pipe does, and of what happens to the pipes meanwhile, becomes a world for the access program
by adding the descriptor table.
-/

open SimConnect.Foundation

namespace SimConnect

/-- What the operations on the named pipes do to a system `Q` of pipes and other parties; `env` is a
step of the other parties. -/
structure PipeSystem (Q : Type) where
  write : Q → PipeName → SimicsTransaction → ℤ → Q → Prop
  read : Q → PipeName → ReadResult → Q → Prop
  env : Q → Q → Prop

/-- The system of pipes with the descriptors that the host has open on it. -/
structure Host (Q : Type) where
  fds : ℤ → Option PipeName
  pipes : Q

variable {Q : Type}

def Host.setFd (h : Host Q) (fd : ℤ) (pipe : Option PipeName) : Host Q :=
  { h with fds := Function.update h.fds fd pipe }

-- a descriptor that is not open gives EBADF
def PipeSystem.call (ps : PipeSystem Q) (h : Host Q) : (c : SysCall) → c.Ret → Host Q → Prop
  | .open path, fd, h' =>
      (fd < 0 ∧ h' = h) ∨ (0 ≤ fd ∧ h.fds fd = none ∧ h' = h.setFd fd (some path.pipe))
  | .close fd, _, h' => h' = h.setFd fd none
  | .write fd p, r, h' =>
      match h.fds fd with
      | some pipe => ps.write h.pipes pipe p r h'.pipes ∧ h'.fds = h.fds
      | none => r = -1 ∧ h' = h
  | .read fd, r, h' =>
      match h.fds fd with
      | some pipe => ps.read h.pipes pipe r h'.pipes ∧ h'.fds = h.fds
      | none => r = .fail ∧ h' = h
  | .getenv _, _, h' => h' = h
  | .strbuf _ _, _, h' => h' = h
  | .fopen _, _, h' => h' = h
  | .localtime, _, h' => h' = h
  | .fprintf _, _, h' => h' = h
  | .fflush _, _, h' => h' = h

def PipeSystem.world (ps : PipeSystem Q) : SysWorld (Host Q) where
  call := ps.call
  env := fun h h' => ps.env h.pipes h'.pipes ∧ h'.fds = h.fds

theorem PipeSystem.call_quiet {ps : PipeSystem Q} {h h' : Host Q} {c : SysCall} {r : c.Ret}
    (hc : c.Quiet) (hcall : ps.call h c r h') : h' = h := by
  cases c with
  | «open» path => exact hc.elim
  | close fd => exact hc.elim
  | write fd p => exact hc.elim
  | read fd => exact hc.elim
  | getenv name => exact hcall
  | strbuf buf s => exact hcall
  | fopen path => exact hcall
  | localtime => exact hcall
  | fprintf fp => exact hcall
  | fflush fp => exact hcall

-- whether the answers that meet `ok` include a failure of open_client_pipe
def OpenMayFail (ok : (c : SysCall) → c.Ret → Prop) : Prop :=
  ok (.getenv .cxlRelayServerPath) none ∨ ∃ path fd, fd < 0 ∧ ok (.open path) fd

-- a call reaches the pipes as a write, as a read or not at all
theorem PipeSystem.call_pipes {ps : PipeSystem Q} {h h' : Host Q} {c : SysCall} {r : c.Ret}
    (hcall : ps.call h c r h') :
    h'.pipes = h.pipes ∨ (∃ pipe p n, ps.write h.pipes pipe p n h'.pipes) ∨
      ∃ pipe n, ps.read h.pipes pipe n h'.pipes := by
  cases c with
  | «open» path =>
      rcases hcall with ⟨_, rfl⟩ | ⟨_, _, rfl⟩
      · exact Or.inl rfl
      · exact Or.inl rfl
  | close fd =>
      have hh : h' = h.setFd fd none := hcall
      rw [hh]
      exact Or.inl rfl
  | write fd p =>
      cases hfd : h.fds fd with
      | none =>
          simp only [PipeSystem.call, hfd] at hcall
          rw [hcall.2]
          exact Or.inl rfl
      | some pipe =>
          simp only [PipeSystem.call, hfd] at hcall
          exact Or.inr (Or.inl ⟨pipe, p, r, hcall.1⟩)
  | read fd =>
      cases hfd : h.fds fd with
      | none =>
          simp only [PipeSystem.call, hfd] at hcall
          rw [hcall.2]
          exact Or.inl rfl
      | some pipe =>
          simp only [PipeSystem.call, hfd] at hcall
          exact Or.inr (Or.inr ⟨pipe, r, hcall.1⟩)
  | _ =>
      have hh : h' = h := hcall
      rw [hh]
      exact Or.inl rfl

-- what the pipe operations keep, a call of the host keeps
theorem PipeSystem.call_stable {ps : PipeSystem Q} {P : Q → Prop}
    (hwrite : ∀ q pipe p r q', ps.write q pipe p r q' → P q → P q')
    (hread : ∀ q pipe r q', ps.read q pipe r q' → P q → P q') {h h' : Host Q} {c : SysCall}
    {r : c.Ret} (hcall : ps.call h c r h') (hP : P h.pipes) : P h'.pipes := by
  rcases PipeSystem.call_pipes hcall with heq | ⟨pipe, p, n, hstep⟩ | ⟨pipe, n, hstep⟩
  · rw [heq]
    exact hP
  · exact hwrite _ _ _ _ _ hstep hP
  · exact hread _ _ _ _ hstep hP

/-- The stages of an access in terms of the pipes alone: before the write, after it, and after a
read with a given result. -/
structure PipePlan (ps : PipeSystem Q) (ok : (c : SysCall) → c.Ret → Prop) (I : Q → Prop)
    (spd : SimicsTransaction) where
  idle : Q → Prop
  sent : Q → Prop
  done : ReadResult → Q → Prop
  idle_env : ∀ q q', ps.env q q' → idle q → idle q'
  sent_env : ∀ q q', ps.env q q' → sent q → sent q'
  done_env : ∀ r q q', ps.env q q' → done r q → done r q'
  idle_inv : ∀ q, idle q → I q
  sent_inv : ∀ q, sent q → I q
  done_inv : ∀ r q, done r q → I q
  write : ∀ q fd r q', idle q → ok (.write fd spd) r → ps.write q .requestClient spd r q' → sent q'
  read : ∀ q r q', sent q → ps.read q .replyClient r q' → done r q'

section Plan

variable {ps : PipeSystem Q} {ok : (c : SysCall) → c.Ret → Prop} {I : Q → Prop}
  {spd : SimicsTransaction}

-- an assertion on the pipes and on descriptors that only the host changes
theorem indifferent_of_env {P : Q → Prop} {F : (ℤ → Option PipeName) → Prop}
    (henv : ∀ q q', ps.env q q' → P q → P q') (hinv : ∀ q, P q → I q) :
    Indifferent (ps.world.only ok) (fun h => I h.pipes) (fun h => F h.fds ∧ P h.pipes) where
  env := by
    rintro h h' ⟨hq, hfds⟩ ⟨hF, hP⟩
    exact ⟨by rw [hfds]; exact hF, henv _ _ hq hP⟩
  inv := fun h hP => hinv _ hP.2
  quiet := by
    rintro h c r h' hc ⟨_, hcall⟩ hP
    rw [PipeSystem.call_quiet hc hcall]
    exact hP

def PipePlan.toAccessPlan (plan : PipePlan ps ok I spd) :
    AccessPlan (ps.world.only ok) (fun h => I h.pipes) spd where
  idle := fun h => True ∧ plan.idle h.pipes
  half := fun fd h => h.fds fd = some .requestClient ∧ plan.idle h.pipes
  opened := fun fd fd' h =>
    (h.fds fd = some .requestClient ∧ h.fds fd' = some .replyClient) ∧ plan.idle h.pipes
  sent := fun fd' h => h.fds fd' = some .replyClient ∧ plan.sent h.pipes
  done := fun r h => True ∧ plan.done r h.pipes
  fails := OpenMayFail ok
  idle_ind := indifferent_of_env (F := fun _ => True) plan.idle_env plan.idle_inv
  half_ind := fun fd => indifferent_of_env (F := fun fds => fds fd = some .requestClient)
    plan.idle_env plan.idle_inv
  opened_ind := fun fd fd' => indifferent_of_env
    (F := fun fds => fds fd = some .requestClient ∧ fds fd' = some .replyClient)
    plan.idle_env plan.idle_inv
  sent_ind := fun fd' => indifferent_of_env (F := fun fds => fds fd' = some .replyClient)
    plan.sent_env plan.sent_inv
  done_ind := fun r => indifferent_of_env (F := fun _ => True) (plan.done_env r) (plan.done_inv r)
  path_unset := fun _ _ hcall => Or.inl hcall.1
  open_failed := fun _ path fd _ hcall hfd => Or.inr ⟨path, fd, hfd, hcall.1⟩
  open_request := by
    rintro h dir fd h' ⟨_, hidle⟩ ⟨_, ⟨hfd, rfl⟩ | ⟨hfd, _, rfl⟩⟩
    · rw [if_pos hfd]
      exact ⟨trivial, hidle⟩
    · rw [if_neg (Int.not_lt.mpr hfd)]
      exact ⟨Function.update_self _ _ _, hidle⟩
  open_reply := by
    rintro h dir fd fd' h' ⟨hrequest, hidle⟩ ⟨_, ⟨hfd, rfl⟩ | ⟨hfd, hfree, rfl⟩⟩
    · rw [if_pos hfd]
      exact ⟨hrequest, hidle⟩
    · rw [if_neg (Int.not_lt.mpr hfd)]
      -- the second descriptor is a fresh one
      have hne : fd ≠ fd' := by
        intro heq
        rw [heq, hfree] at hrequest
        cases hrequest
      refine ⟨⟨?_, Function.update_self _ _ _⟩, hidle⟩
      exact (Function.update_of_ne hne _ _).trans hrequest
  close_request := by
    rintro h fd r h' ⟨_, hidle⟩ ⟨_, rfl⟩
    exact ⟨trivial, hidle⟩
  write := by
    rintro h fd fd' r h' ⟨⟨hrequest, hreply⟩, hidle⟩ ⟨hok, hcall⟩
    simp only [PipeSystem.world, PipeSystem.call, hrequest] at hcall
    exact ⟨by rw [hcall.2]; exact hreply, plan.write _ fd r _ hidle hok hcall.1⟩
  read := by
    rintro h fd' r h' ⟨hreply, hsent⟩ ⟨_, hcall⟩
    simp only [PipeSystem.world, PipeSystem.call, hreply] at hcall
    exact ⟨trivial, plan.read _ r _ hsent hcall.1⟩

end Plan

/-! ## One access after another -/

def accessBody (a : Access) (lib : DeviceLib) :
    Prog SysCall SysCall.Ret (AccessResult × DeviceLib) :=
  (simicsSendAccessToCosim a).run lib

def plainAccess : Access where
  spd := .zero
  rd := .zero
  verbose := false
  timeStartFlag := false
  timeEndFlag := false

abbrev HostClient (Q : Type) :=
  Client SysCall SysCall.Ret (Host Q) DeviceLib Access AccessResult

def HostClient.init (lib : DeviceLib) (h : Host Q) : HostClient Q :=
  { lib, cur := none, world := h, log := [] }

end SimConnect
