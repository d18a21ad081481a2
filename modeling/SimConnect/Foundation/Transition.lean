import Mathlib.Data.Nat.Notation
import Mathlib.Logic.Function.Basic
import Mathlib.Logic.Relation

/-!
# Runs of a transition system

A system is given by its labelled step relation.  A run may be restricted to steps whose label is
acceptable in the state it starts from, so that one induction serves unrestricted reachability and
statements about the runs that keep to a condition.  What every run must come to is bounded by a
rank that its steps lower.
-/

namespace SimConnect.Foundation

variable {σ α : Type}

/-- The states of the runs from `s₀` in which every step meets `ok`. -/
inductive RunsTo (step : σ → α → σ → Prop) (ok : σ → α → Prop) (s₀ : σ) : σ → Prop
  | start : RunsTo step ok s₀ s₀
  | next {s s' : σ} {a : α} :
      RunsTo step ok s₀ s → ok s a → step s a s' → RunsTo step ok s₀ s'

/-- Reachability: no condition on the steps. -/
abbrev Reaches (step : σ → α → σ → Prop) : σ → σ → Prop :=
  RunsTo step fun _ _ => True

namespace RunsTo

variable {step : σ → α → σ → Prop} {ok : σ → α → Prop} {s₀ s : σ}

theorem invariant {I : σ → Prop} (h : RunsTo step ok s₀ s) (h₀ : I s₀)
    (hstep : ∀ s a s', I s → ok s a → step s a s' → I s') : I s := by
  induction h with
  | start => exact h₀
  | next _ hok hs ih => exact hstep _ _ _ ih hok hs

theorem mono {ok' : σ → α → Prop} (hok : ∀ s a, ok s a → ok' s a) (h : RunsTo step ok s₀ s) :
    RunsTo step ok' s₀ s := by
  induction h with
  | start => exact .start
  | next _ ha hs ih => exact .next ih (hok _ _ ha) hs

end RunsTo

-- forward simulation along a relation `R`, with the labels mapped by `f`
theorem Reaches.simulate {τ β : Type} {step : σ → α → σ → Prop} {step' : τ → β → τ → Prop}
    {f : α → β} {R : σ → τ → Prop} {s₀ s : σ} {t₀ : τ} (h : Reaches step s₀ s) (h₀ : R s₀ t₀)
    (hsim : ∀ s a s' t, R s t → step s a s' → ∃ t', step' t (f a) t' ∧ R s' t') :
    ∃ t, Reaches step' t₀ t ∧ R s t := by
  refine RunsTo.invariant (I := fun s => ∃ t, Reaches step' t₀ t ∧ R s t) h ⟨t₀, .start, h₀⟩ ?_
  rintro s a s' ⟨t, ht, hst⟩ _ hstep
  obtain ⟨t', ht', hst'⟩ := hsim s a s' t hst hstep
  exact ⟨t', .next ht trivial ht', hst'⟩

/-! ## Executable steps -/

-- the step relation of a function that says `none` where a label is not enabled
def stepOf (f : σ → α → Option σ) (s : σ) (a : α) (s' : σ) : Prop := f s a = some s'

def exec (f : σ → α → Option σ) : σ → List α → Option σ
  | s, [] => some s
  | s, a :: as => (f s a).bind fun s' => exec f s' as

-- `ok` along the run that `exec` makes
def okAlong (f : σ → α → Option σ) (ok : σ → α → Prop) : σ → List α → Prop
  | _, [] => True
  | s, a :: as => ok s a ∧ match f s a with
    | some s' => okAlong f ok s' as
    | none => True

theorem RunsTo.exec_from {f : σ → α → Option σ} {ok : σ → α → Prop} {s₀ s s' : σ} {as : List α}
    (h : RunsTo (stepOf f) ok s₀ s) (hexec : exec f s as = some s') (hok : okAlong f ok s as) :
    RunsTo (stepOf f) ok s₀ s' := by
  induction as generalizing s with
  | nil =>
      have hs : s = s' := Option.some.inj hexec
      rwa [← hs]
  | cons a as ih =>
      obtain ⟨t, hstep, hrest⟩ := Option.bind_eq_some_iff.mp hexec
      obtain ⟨ha, hlater⟩ := hok
      rw [hstep] at hlater
      exact ih (.next h ha hstep) hrest hlater

theorem RunsTo.of_exec {f : σ → α → Option σ} {ok : σ → α → Prop} {s s' : σ} {as : List α}
    (hexec : exec f s as = some s') (hok : okAlong f ok s as) : RunsTo (stepOf f) ok s s' :=
  RunsTo.exec_from .start hexec hok

theorem okAlong_true (f : σ → α → Option σ) (s : σ) (as : List α) :
    okAlong f (fun _ _ => True) s as := by
  induction as generalizing s with
  | nil => trivial
  | cons a as ih =>
      refine ⟨trivial, ?_⟩
      cases f s a with
      | none => trivial
      | some s' => exact ih s'

theorem okAlong_of_invariant {f : σ → α → Option σ} {ok : σ → α → Prop} {I : σ → Prop}
    (hI : ∀ s a s', I s → f s a = some s' → I s') (hok : ∀ s a, I s → ok s a) {s : σ} (h₀ : I s)
    (as : List α) : okAlong f ok s as := by
  induction as generalizing s with
  | nil => trivial
  | cons a as ih =>
      refine ⟨hok s a h₀, ?_⟩
      cases hs : f s a with
      | none => trivial
      | some s' => exact ih (hI s a s' h₀ hs)

theorem reaches_of_exec {f : σ → α → Option σ} {s s' : σ} {as : List α}
    (h : exec f s as = some s') : Reaches (stepOf f) s s' :=
  RunsTo.of_exec h (okAlong_true f s as)

theorem reflTransGen_of_exec {f : σ → α → Option σ} {r : σ → σ → Prop} {s s' : σ} {as : List α}
    (hr : ∀ a ∈ as, ∀ s s', f s a = some s' → r s s') (h : exec f s as = some s') :
    Relation.ReflTransGen r s s' := by
  induction as generalizing s with
  | nil =>
      rw [Option.some.inj h]
  | cons a as ih =>
      obtain ⟨ha, hrest⟩ := List.forall_mem_cons.mp hr
      obtain ⟨t, hstep, hlater⟩ := Option.bind_eq_some_iff.mp h
      exact .head (ha s t hstep) (ih hrest hlater)

theorem exec_invariant {f : σ → α → Option σ} {I : σ → Prop}
    (hI : ∀ s a s', I s → f s a = some s' → I s') {s s' : σ} {as : List α} (h₀ : I s)
    (h : exec f s as = some s') : I s' := by
  induction as generalizing s with
  | nil =>
      rw [← Option.some.inj h]
      exact h₀
  | cons a as ih =>
      obtain ⟨t, hs, hrest⟩ := Option.bind_eq_some_iff.mp h
      exact ih (hI s a t h₀ hs) hrest

/-- If, wherever `I` holds, a step keeps `G` exactly when it meets `ok`, a run keeps `G` exactly
when all of its steps meet `ok`. -/
theorem exec_iff_okAlong_of_invariant {f : σ → α → Option σ} {ok : σ → α → Prop} {I G : σ → Prop}
    (hI : ∀ s a s', I s → f s a = some s' → I s')
    (hstep : ∀ s a s', I s → f s a = some s' → (G s' ↔ G s ∧ ok s a)) {s s' : σ} {as : List α}
    (h₀ : I s) (h : exec f s as = some s') : G s' ↔ G s ∧ okAlong f ok s as := by
  induction as generalizing s with
  | nil =>
      rw [← Option.some.inj h]
      exact (and_iff_left trivial).symm
  | cons a as ih =>
      obtain ⟨t, hs, hrest⟩ := Option.bind_eq_some_iff.mp h
      rw [ih (hI s a t h₀ hs) hrest, hstep s a t h₀ hs, okAlong, hs, and_assoc]

theorem exec_iff_okAlong {f : σ → α → Option σ} {ok : σ → α → Prop} {G : σ → Prop}
    (hstep : ∀ s a s', f s a = some s' → (G s' ↔ G s ∧ ok s a)) {s s' : σ} {as : List α}
    (h : exec f s as = some s') : G s' ↔ G s ∧ okAlong f ok s as :=
  exec_iff_okAlong_of_invariant (I := fun _ => True) (fun _ _ _ _ _ => trivial)
    (fun s a s' _ hs => hstep s a s' hs) trivial h

/-! ## Progress -/

/-- Whatever steps are taken from `s`, one of at most `n` steps leads to `P`, and until then there
is always a step to take. -/
inductive Within (step : σ → σ → Prop) (P : σ → Prop) : ℕ → σ → Prop
  | now {n : ℕ} {s : σ} : P s → Within step P n s
  | later {n : ℕ} {s s' : σ} : step s s' → (∀ t, step s t → Within step P n t) →
      Within step P (n + 1) s

namespace Within

variable {step : σ → σ → Prop} {P : σ → Prop}

theorem mono {n m : ℕ} {s : σ} (h : Within step P n s) (hnm : n ≤ m) : Within step P m s := by
  induction h generalizing m with
  | now hP => exact .now hP
  | @later n s s' hstep _ ih =>
      cases m with
      | zero => exact absurd hnm (Nat.not_succ_le_zero n)
      | succ m => exact .later hstep fun t ht => ih t ht (Nat.le_of_succ_le_succ hnm)

theorem imp {P' : σ → Prop} (hP : ∀ s, P s → P' s) {n : ℕ} {s : σ} (h : Within step P n s) :
    Within step P' n s := by
  induction h with
  | now hs => exact .now (hP _ hs)
  | later hstep _ ih => exact .later hstep ih

-- what the steps keep holds at the end as well
theorem keep {I : σ → Prop} (hI : ∀ s s', I s → step s s' → I s') {n : ℕ} {s : σ}
    (h : Within step P n s) (hs : I s) : Within step (fun s => P s ∧ I s) n s := by
  induction h with
  | now hP => exact .now ⟨hP, hs⟩
  | later hstep _ ih => exact .later hstep fun t ht => ih t ht (hI _ _ hs ht)

-- a rank that every step lowers bounds the way to `P`
theorem of_rank {I : σ → Prop} {rank : σ → ℕ} (hI : ∀ s s', I s → step s s' → I s')
    (hrank : ∀ s s', I s → step s s' → rank s' < rank s)
    (hgo : ∀ s, I s → P s ∨ ∃ s', step s s') {s : σ} (hs : I s) :
    Within step (fun s => I s ∧ P s) (rank s) s := by
  have hbound : ∀ (n : ℕ) (s : σ), I s → rank s ≤ n → Within step (fun s => I s ∧ P s) n s := by
    intro n
    induction n with
    | zero =>
        intro s hs hle
        rcases hgo s hs with hP | ⟨s', hstep⟩
        · exact .now ⟨hs, hP⟩
        · have hlt := hrank s s' hs hstep
          omega
    | succ n ih =>
        intro s hs hle
        rcases hgo s hs with hP | ⟨s', hstep⟩
        · exact .now ⟨hs, hP⟩
        · refine .later hstep fun t ht => ih t (hI s t hs ht) ?_
          have hlt := hrank s t hs ht
          omega
  exact hbound (rank s) s hs (Nat.le_refl _)

end Within

end SimConnect.Foundation
