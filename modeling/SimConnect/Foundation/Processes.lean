import SimConnect.Foundation.Transition
import Mathlib.Data.List.Basic

/-!
# Processes over a shared state

Any number of processes are started, each with the list of events that it has still to carry out;
they take their events one at a time in any order, and a process may be stopped.  An assertion on
what a process has before it, kept by the process itself and by the events of the others, holds
along every run.
-/

namespace SimConnect.Foundation

variable {σ ε β : Type}

structure Processes (σ ε : Type) where
  shared : σ
  todo : List (List ε)

inductive ProcAct (β : Type)
  | start (b : β)
  | next (i : ℕ)
  | stop (i : ℕ)

-- `program b` is what a process started with `b` carries out
def procStep (event : σ → ε → Option σ) (program : β → List ε) (s : Processes σ ε) :
    ProcAct β → Option (Processes σ ε)
  | .start b => some { s with todo := s.todo ++ [program b] }
  | .next i =>
      match s.todo[i]? with
      | some (e :: es) => (event s.shared e).map fun shared => { shared, todo := s.todo.set i es }
      | _ => none
  | .stop i => some { s with todo := s.todo.set i [] }

/-- A condition on the next event of the process that takes a step. -/
def NextMeets (ok : σ → ε → Prop) (s : Processes σ ε) : ProcAct β → Prop
  | .next i => ∀ e es, s.todo[i]? = some (e :: es) → ok s.shared e
  | _ => True

theorem procStep_next {event : σ → ε → Option σ} {program : β → List ε} {s s' : Processes σ ε}
    {i : ℕ} (h : procStep event program s (.next i) = some s') :
    ∃ e es, s.todo[i]? = some (e :: es) ∧ event s.shared e = some s'.shared ∧
      s'.todo = s.todo.set i es := by
  unfold procStep at h
  match htodo : s.todo[i]? with
  | none =>
      simp only [htodo] at h
      cases h
  | some [] =>
      simp only [htodo] at h
      cases h
  | some (e :: es) =>
      simp only [htodo] at h
      obtain ⟨shared, hevent, hs'⟩ := Option.map_eq_some_iff.mp h
      rw [← hs']
      exact ⟨e, es, rfl, hevent, rfl⟩

structure Processes.Covered (I : σ → Prop) (C : σ → List ε → Prop) (s : Processes σ ε) : Prop where
  shared : I s.shared
  todo : ∀ es ∈ s.todo, C s.shared es

/-- What covers a process when it starts, and is kept by its own events and by those of the others,
covers all processes along a run. -/
theorem Processes.covered {event : σ → ε → Option σ} {program : β → List ε} {ok : σ → ε → Prop}
    {I : σ → Prop} {C : σ → List ε → Prop} {s₀ s : Processes σ ε}
    (hnil : ∀ σ, C σ [])
    (hstart : ∀ σ b, C σ (program b))
    (hown : ∀ σ e es σ', I σ → C σ (e :: es) → ok σ e → event σ e = some σ' → I σ' ∧ C σ' es)
    (hothers : ∀ σ e σ' es, event σ e = some σ' → C σ es → C σ' es)
    (h : RunsTo (stepOf (procStep event program)) (NextMeets ok) s₀ s) (h₀ : s₀.Covered I C) :
    s.Covered I C := by
  apply RunsTo.invariant h h₀
  intro s a s' hs hok hstep
  cases a with
  | start b =>
      rw [← Option.some.inj hstep]
      refine ⟨hs.shared, ?_⟩
      rw [List.forall_mem_append, List.forall_mem_singleton]
      exact ⟨hs.todo, hstart _ b⟩
  | next i =>
      obtain ⟨e, es, htodo, hevent, hset⟩ := procStep_next hstep
      obtain ⟨hshared, hC⟩ := hown _ e es _ hs.shared
        (hs.todo _ (List.mem_of_getElem? htodo)) (hok e es htodo) hevent
      refine ⟨hshared, fun es' hes' => ?_⟩
      rw [hset] at hes'
      cases List.mem_or_eq_of_mem_set hes' with
      | inl hold => exact hothers _ e _ es' hevent (hs.todo es' hold)
      | inr hnew => rwa [hnew]
  | stop i =>
      rw [← Option.some.inj hstep]
      refine ⟨hs.shared, fun es' hes' => ?_⟩
      cases List.mem_or_eq_of_mem_set hes' with
      | inl hold => exact hs.todo es' hold
      | inr hnew =>
          rw [hnew]
          exact hnil _

end SimConnect.Foundation
