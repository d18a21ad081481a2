import SimConnect.Foundation.Program
import Mathlib.Data.List.Basic

/-!
# Deterministic machines with an output for every input

A run keeps the state before and after each input beside the output, so that a statement about one
step can be made inside a run.  Two machines over different states are compared through a third one
that both of them project to.
-/

namespace SimConnect.Foundation

abbrev Machine (σ ι ο : Type) := σ → ι → σ × ο

structure MachineStep (σ ο : Type) where
  before : σ
  after : σ
  output : ο

def MachineStep.map {σ τ ο ω : Type} (π : σ → τ) (q : ο → ω) (step : MachineStep σ ο) :
    MachineStep τ ω where
  before := π step.before
  after := π step.after
  output := q step.output

namespace Machine

variable {σ τ ι ο ω : Type}

def run (m : Machine σ ι ο) : σ → List ι → List (MachineStep σ ο)
  | _, [] => []
  | s, i :: is => ⟨s, (m s i).1, (m s i).2⟩ :: run m (m s i).1 is

theorem run_length (m : Machine σ ι ο) (s : σ) (is : List ι) :
    (m.run s is).length = is.length := by
  induction is generalizing s with
  | nil => rfl
  | cons i is ih => rw [run, List.length_cons, ih, List.length_cons]

-- each entry of a run is the machine's step on the input at its place
theorem run_getElem? (m : Machine σ ι ο) {s : σ} {is : List ι} {k : ℕ} {i : ι}
    {step : MachineStep σ ο} (hinput : is[k]? = some i) (hstep : (m.run s is)[k]? = some step) :
    (step.after, step.output) = m step.before i := by
  induction is generalizing s k with
  | nil => cases hinput
  | cons j is ih =>
      cases k with
      | zero =>
          have hi : j = i := Option.some.inj hinput
          have hs : (⟨s, (m s j).1, (m s j).2⟩ : MachineStep σ ο) = step := Option.some.inj hstep
          rw [← hs, ← hi]
      | succ k => exact ih hinput hstep

/-- If every step of `m`, seen through `π` and `q`, is a step of `m'`, so is every run. -/
theorem run_project {m : Machine σ ι ο} {m' : Machine τ ι ω} {π : σ → τ} {q : ο → ω}
    (h : ∀ s i, m' (π s) i = (π (m s i).1, q (m s i).2)) (s : σ) (is : List ι) :
    (m.run s is).map (MachineStep.map π q) = m'.run (π s) is := by
  induction is generalizing s with
  | nil => rfl
  | cons i is ih =>
      have hstep := h s i
      rw [run, run, List.map_cons, ih, hstep]
      rfl

-- the state after a run and what the run puts out
def last (m : Machine σ ι ο) (s : σ) (is : List ι) : σ := is.foldl (fun s i => (m s i).1) s

def outputs (m : Machine σ ι ο) (s : σ) (is : List ι) : List ο :=
  (m.run s is).map MachineStep.output

theorem last_concat (m : Machine σ ι ο) (s : σ) (is : List ι) (i : ι) :
    m.last s (is ++ [i]) = (m (m.last s is) i).1 := by
  rw [last, List.foldl_append]
  rfl

theorem outputs_concat (m : Machine σ ι ο) (s : σ) (is : List ι) (i : ι) :
    m.outputs s (is ++ [i]) = m.outputs s is ++ [(m (m.last s is) i).2] := by
  induction is generalizing s with
  | nil => rfl
  | cons j is ih =>
      have hrest := ih (m s j).1
      rw [outputs] at hrest ⊢
      rw [List.cons_append, run, List.map_cons, hrest]
      rfl

-- each output comes from the input at its place in some state
theorem outputs_mem {m : Machine σ ι ο} {s : σ} {log : List (ι × ο)}
    (h : log.map Prod.snd = m.outputs s (log.map Prod.fst)) :
    ∀ x ∈ log, ∃ t, x.2 = (m t x.1).2 := by
  induction log generalizing s with
  | nil => exact fun x hx => absurd hx List.not_mem_nil
  | cons y log ih =>
      rw [List.map_cons, List.map_cons, outputs, run, List.map_cons] at h
      obtain ⟨hy, hrest⟩ := List.cons.inj h
      exact List.forall_mem_cons.mpr ⟨⟨s, hy⟩, ih hrest⟩

end Machine

/-! ## A client that a machine describes -/

section Client

variable {Call : Type} {Ret : Call → Type} {W σ τ Req Resp : Type} {e : World Call Ret W}
  {body : Req → σ → Prog Call Ret (Resp × σ)} {I : W → Prop}
  {okBegin : W → Req → Prop} {okCall : (c : Call) → Ret c → Prop}

-- the client stands where `spec` is in state `t`, or is on its way to the next state
def Client.Follows (e : World Call Ret W) (okCall : (c : Call) → Ret c → Prop) (I : W → Prop)
    (spec : Machine τ Req Resp) (B : τ → σ → W → Prop) (t : τ)
    (s : Client Call Ret W σ Req Resp) : Prop :=
  match s.cur with
  | none => B t s.lib s.world
  | some (req, m) => (∃ lib w, B t lib w) ∧ m.wp (e.only okCall) I
      (fun x w' => x.1 = (spec t req).2 ∧ B (spec t req).1 x.2 w') s.world

/-- If every request is carried out with the result and the next state that `spec` gives, the
requests of a run have the results of `spec` on them, and `B` has held in the state after them. -/
theorem Client.run_machine (spec : Machine τ Req Resp) {B : τ → σ → W → Prop}
    (hB : ∀ t lib, Steady e I (B t lib))
    (hbody : ∀ t lib w req, B t lib w → okBegin w req →
      (body req lib).wp (e.only okCall) I
        (fun x w' => x.1 = (spec t req).2 ∧ B (spec t req).1 x.2 w') w)
    {s₀ s : Client Call Ret W σ Req Resp}
    (h : RunsTo (Client.Step e body) (Client.Meets okBegin okCall) s₀ s)
    (hcur : s₀.cur = none) (hlog : s₀.log = []) (t₀ : τ) (h₀ : B t₀ s₀.lib s₀.world) :
    I s.world ∧ s.log.map Prod.snd = spec.outputs t₀ (s.log.map Prod.fst) ∧
      ∃ lib w, B (spec.last t₀ (s.log.map Prod.fst)) lib w := by
  have hinv : Client.Follows e okCall I spec B (spec.last t₀ (s.log.map Prod.fst)) s ∧
      s.log.map Prod.snd = spec.outputs t₀ (s.log.map Prod.fst) := by
    refine h.invariant (I := fun s =>
      Client.Follows e okCall I spec B (spec.last t₀ (s.log.map Prod.fst)) s ∧
        s.log.map Prod.snd = spec.outputs t₀ (s.log.map Prod.fst)) ?_ ?_
    · rw [Client.Follows, hcur, hlog]
      exact ⟨h₀, rfl⟩
    · rintro s label s' ⟨hnow, hpast⟩ hok hstep
      cases hstep with
      | @env lib cur w w' log henv =>
          refine ⟨?_, hpast⟩
          cases cur with
          | none => exact (hB _ lib).env _ _ henv hnow
          | some cur => exact ⟨hnow.1, Prog.wp_env hnow.2 (.single henv)⟩
      | begin req => exact ⟨⟨⟨_, _, hnow⟩, hbody _ _ _ req hnow hok⟩, hpast⟩
      | @call lib req c k w r w' log hcall =>
          exact ⟨⟨hnow.1, (hnow.2 w .refl).2 r w' ⟨hok, hcall⟩⟩, hpast⟩
      | @finish lib req a lib' w log =>
          obtain ⟨ha, hb⟩ := (hnow.2 w .refl).2
          have hfst : (log ++ [(req, a)]).map Prod.fst = log.map Prod.fst ++ [req] :=
            List.map_append
          have hsnd : (log ++ [(req, a)]).map Prod.snd = log.map Prod.snd ++ [a] :=
            List.map_append
          constructor
          · change B (spec.last t₀ ((log ++ [(req, a)]).map Prod.fst)) lib' w
            rw [hfst, spec.last_concat]
            exact hb
          · change (log ++ [(req, a)]).map Prod.snd = _
            rw [hsnd, hfst, spec.outputs_concat, hpast]
            exact congrArg (fun y => spec.outputs t₀ (log.map Prod.fst) ++ [y]) ha
  obtain ⟨hnow, hlog⟩ := hinv
  rw [Client.Follows] at hnow
  cases hs : s.cur with
  | none =>
      rw [hs] at hnow
      exact ⟨(hB _ s.lib).inv _ hnow, hlog, _, _, hnow⟩
  | some cur =>
      rw [hs] at hnow
      exact ⟨Prog.wp_inv hnow.2, hlog, hnow.1⟩

end Client

end SimConnect.Foundation
