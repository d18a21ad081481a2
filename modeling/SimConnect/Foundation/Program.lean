import Mathlib.Data.Nat.Notation
import SimConnect.Foundation.Transition
import Mathlib.Logic.Relation

/-!
# Sequential programs over calls to a world

A program is a tree of calls; what a call may answer and do to the world is left to a `World`,
which also says what may happen between two calls.  The weakest precondition carries an invariant
that holds at every moment of the program, and a client that runs one program after another
inherits it.
-/

namespace SimConnect.Foundation

open Relation

/-! ## Programs -/

inductive Prog (Call : Type) (Ret : Call → Type) (α : Type) : Type
  | ret (a : α)
  | halt
  | call (c : Call) (k : Ret c → Prog Call Ret α)

variable {Call : Type} {Ret : Call → Type} {α β : Type}

namespace Prog

def bind : Prog Call Ret α → (α → Prog Call Ret β) → Prog Call Ret β
  | .ret a, f => f a
  | .halt, _ => .halt
  | .call c k, f => .call c fun r => (k r).bind f

instance : Monad (Prog Call Ret) where
  pure := .ret
  bind := bind

-- the program that makes one call and returns its answer
def invoke (c : Call) : Prog Call Ret (Ret c) := .call c .ret

/-- The calls of a complete execution with their answers; `none` is a halted program. -/
inductive Trace : Prog Call Ret α → List (Σ c, Ret c) → Option α → Prop
  | ret (a : α) : Trace (.ret a) [] (some a)
  | halt : Trace .halt [] none
  | call {c : Call} {k : Ret c → Prog Call Ret α} {t : List (Σ c, Ret c)} {o : Option α}
      (r : Ret c) : Trace (k r) t o → Trace (.call c k) (⟨c, r⟩ :: t) o

end Prog

/-! ## Worlds and assertions -/

structure World (Call : Type) (Ret : Call → Type) (W : Type) where
  call : W → (c : Call) → Ret c → W → Prop
  env : W → W → Prop

variable {W : Type}

/-- The world with only those answers to calls that meet `ok`. -/
def World.only (e : World Call Ret W) (ok : (c : Call) → Ret c → Prop) : World Call Ret W where
  call := fun w c r w' => ok c r ∧ e.call w c r w'
  env := e.env

/-- An assertion that the environment keeps and that implies the invariant. -/
structure Steady (e : World Call Ret W) (I P : W → Prop) : Prop where
  env : ∀ w w', e.env w w' → P w → P w'
  inv : ∀ w, P w → I w

theorem Steady.later {e : World Call Ret W} {I P : W → Prop} (h : Steady e I P) {w w' : W}
    (henv : ReflTransGen e.env w w') (hw : P w) : P w' := by
  induction henv with
  | refl => exact hw
  | tail _ hstep ih => exact h.env _ _ hstep ih

theorem Steady.only {e : World Call Ret W} {I P : W → Prop} (h : Steady e I P)
    (ok : (c : Call) → Ret c → Prop) : Steady (e.only ok) I P :=
  ⟨h.env, h.inv⟩

namespace Prog

/-- From `w`, whatever the environment does meanwhile, every moment of the program satisfies `I` and
its result satisfies `Q` from then on. -/
def wp (e : World Call Ret W) (I : W → Prop) :
    Prog Call Ret α → (α → W → Prop) → W → Prop
  | .ret a, Q, w => ∀ w₁, ReflTransGen e.env w w₁ → I w₁ ∧ Q a w₁
  | .halt, _, w => ∀ w₁, ReflTransGen e.env w w₁ → I w₁
  | .call c k, Q, w => ∀ w₁, ReflTransGen e.env w w₁ →
      I w₁ ∧ ∀ r w₂, e.call w₁ c r w₂ → wp e I (k r) Q w₂

section Wp

variable {e : World Call Ret W} {I : W → Prop}

theorem wp_env {m : Prog Call Ret α} {Q : α → W → Prop} {w w' : W} (h : wp e I m Q w)
    (henv : ReflTransGen e.env w w') : wp e I m Q w' := by
  cases m with
  | ret a => exact fun w₁ h₁ => h w₁ (henv.trans h₁)
  | halt => exact fun w₁ h₁ => h w₁ (henv.trans h₁)
  | call c k => exact fun w₁ h₁ => h w₁ (henv.trans h₁)

theorem wp_inv {m : Prog Call Ret α} {Q : α → W → Prop} {w : W} (h : wp e I m Q w) : I w := by
  cases m with
  | ret a => exact (h w .refl).1
  | halt => exact h w .refl
  | call c k => exact (h w .refl).1

theorem wp_mono {m : Prog Call Ret α} {Q Q' : α → W → Prop} (hQ : ∀ a w, Q a w → Q' a w) {w : W}
    (h : wp e I m Q w) : wp e I m Q' w := by
  induction m generalizing w with
  | ret a =>
      intro w₁ h₁
      obtain ⟨hi, hq⟩ := h w₁ h₁
      exact ⟨hi, hQ a w₁ hq⟩
  | halt => exact h
  | call c k ih =>
      intro w₁ h₁
      obtain ⟨hi, hcall⟩ := h w₁ h₁
      exact ⟨hi, fun r w₂ hr => ih r (hcall r w₂ hr)⟩

theorem wp_bind {m : Prog Call Ret α} {f : α → Prog Call Ret β} {Q : β → W → Prop} {w : W}
    (h : wp e I m (fun a => wp e I (f a) Q) w) : wp e I (m >>= f) Q w := by
  induction m generalizing w with
  | ret a => exact (h w .refl).2
  | halt => exact h
  | call c k ih =>
      intro w₁ h₁
      obtain ⟨hi, hcall⟩ := h w₁ h₁
      exact ⟨hi, fun r w₂ hr => ih r (hcall r w₂ hr)⟩

theorem wp_ret {a : α} {P : W → Prop} {Q : α → W → Prop} (hP : Steady e I P)
    (hQ : ∀ w, P w → Q a w) {w : W} (hw : P w) : wp e I (.ret a) Q w := by
  intro w₁ h₁
  have hw₁ := hP.later h₁ hw
  exact ⟨hP.inv w₁ hw₁, hQ w₁ hw₁⟩

theorem wp_halt {P : W → Prop} {Q : α → W → Prop} (hP : Steady e I P) {w : W} (hw : P w) :
    wp e I .halt Q w :=
  fun w₁ h₁ => hP.inv w₁ (hP.later h₁ hw)

theorem wp_call {c : Call} {k : Ret c → Prog Call Ret α} {P : W → Prop} {Q : α → W → Prop}
    (hP : Steady e I P)
    (hcall : ∀ w, P w → ∀ r w', e.call w c r w' → wp e I (k r) Q w') {w : W} (hw : P w) :
    wp e I (.call c k) Q w := by
  intro w₁ h₁
  have hw₁ := hP.later h₁ hw
  exact ⟨hP.inv w₁ hw₁, hcall w₁ hw₁⟩

-- a condition that every answer meets is none
theorem wp_of_only {m : Prog Call Ret α} {Q : α → W → Prop} {w : W}
    (h : wp (e.only fun _ _ => True) I m Q w) : wp e I m Q w := by
  induction m generalizing w with
  | ret a => exact h
  | halt => exact h
  | call c k ih =>
      intro w₁ h₁
      obtain ⟨hi, hcall⟩ := h w₁ h₁
      exact ⟨hi, fun r w₂ hr => ih r (hcall r w₂ ⟨trivial, hr⟩)⟩

end Wp

/-! ## Traces -/

/-- The world that only records the calls. -/
def recorder (Call : Type) (Ret : Call → Type) : World Call Ret (List (Σ c, Ret c)) where
  call := fun t c r t' => t' = t ++ [⟨c, r⟩]
  env := fun _ _ => False

theorem recorder_steady {I P : List (Σ c, Ret c) → Prop} (h : ∀ t, P t → I t) :
    Steady (recorder Call Ret) I P :=
  ⟨fun _ _ hfalse => hfalse.elim, h⟩

theorem Trace.of_wp {m : Prog Call Ret α} {I : List (Σ c, Ret c) → Prop}
    {Q : α → List (Σ c, Ret c) → Prop} {t₀ t : List (Σ c, Ret c)} {o : Option α}
    (h : Trace m t o) (hwp : wp (recorder Call Ret) I m Q t₀) :
    I (t₀ ++ t) ∧ ∀ a, o = some a → Q a (t₀ ++ t) := by
  induction h generalizing t₀ with
  | ret a =>
      obtain ⟨hi, hq⟩ := hwp t₀ .refl
      rw [List.append_nil]
      refine ⟨hi, fun b hb => ?_⟩
      rw [← Option.some.inj hb]
      exact hq
  | halt =>
      rw [List.append_nil]
      exact ⟨hwp t₀ .refl, fun _ hb => absurd hb.symm (by simp)⟩
  | call r _ ih =>
      have hrest := ih ((hwp t₀ .refl).2 r _ rfl)
      rwa [List.append_assoc, List.singleton_append] at hrest

-- a complete execution of two programs in a row: the first has finished, or it has halted for both
theorem Trace.bind_inv {m : Prog Call Ret α} {f : α → Prog Call Ret β} {t : List (Σ c, Ret c)}
    {o : Option β} (h : Trace (m >>= f) t o) :
    (∃ t₁ t₂ a, Trace m t₁ (some a) ∧ Trace (f a) t₂ o ∧ t = t₁ ++ t₂) ∨
      (o = none ∧ Trace m t none) := by
  induction m generalizing t with
  | ret a => exact Or.inl ⟨[], t, a, .ret a, h, rfl⟩
  | halt =>
      cases (h : Trace .halt t o)
      exact Or.inr ⟨rfl, .halt⟩
  | call c k ih =>
      cases (h : Trace (.call c fun r => k r >>= f) t o) with
      | call r hrest =>
          rcases ih r hrest with ⟨t₁, t₂, a, h₁, h₂, rfl⟩ | ⟨ho, h₁⟩
          · exact Or.inl ⟨⟨c, r⟩ :: t₁, t₂, a, .call r h₁, h₂, rfl⟩
          · exact Or.inr ⟨ho, .call r h₁⟩

-- the execution in which `answer` gives the result of every call and the world after it
def runWith (answer : W → (c : Call) → Ret c × W) :
    Prog Call Ret α → W → List (Σ c, Ret c) × Option α × W
  | .ret a, w => ([], some a, w)
  | .halt, w => ([], none, w)
  | .call c k, w =>
      let rest := runWith answer (k (answer w c).1) (answer w c).2
      (⟨c, (answer w c).1⟩ :: rest.1, rest.2)

theorem trace_runWith (answer : W → (c : Call) → Ret c × W) (m : Prog Call Ret α) (w : W) :
    m.Trace (m.runWith answer w).1 (m.runWith answer w).2.1 := by
  induction m generalizing w with
  | ret a => exact .ret a
  | halt => exact .halt
  | call c k ih => exact .call _ (ih _ _)

-- the same where `answer` need not answer every call in every world, for a program that finishes
def runWith? (answer : W → (c : Call) → Option (Ret c × W)) :
    Prog Call Ret α → W → Option (α × W)
  | .ret a, w => some (a, w)
  | .halt, _ => none
  | .call c k, w => (answer w c).bind fun x => runWith? answer (k x.1) x.2

theorem runWith?_of_runWith {answer : W → (c : Call) → Ret c × W} {m : Prog Call Ret α} {w w' : W}
    {a : α} (h : (m.runWith answer w).2 = (some a, w')) :
    m.runWith? (fun w c => some (answer w c)) w = some (a, w') := by
  induction m generalizing w with
  | ret b =>
      have hb : b = a := Option.some.inj (congrArg Prod.fst h)
      have hw : w = w' := congrArg Prod.snd h
      rw [runWith?, hb, hw]
  | halt => exact absurd (congrArg Prod.fst h) (by simp [runWith])
  | call c k ih => exact ih _ h

-- such an execution meets what the program guarantees
theorem wp_runWith? {e : World Call Ret W} {I : W → Prop}
    {answer : W → (c : Call) → Option (Ret c × W)}
    (hanswer : ∀ w c x, answer w c = some x →
      ∃ w₁, ReflTransGen e.env w w₁ ∧ e.call w₁ c x.1 x.2)
    {m : Prog Call Ret α} {Q : α → W → Prop} {w w' : W} {a : α} (h : wp e I m Q w)
    (hrun : m.runWith? answer w = some (a, w')) : Q a w' := by
  induction m generalizing w with
  | ret b =>
      have hpair := Option.some.inj hrun
      have hb : b = a := congrArg Prod.fst hpair
      have hw : w = w' := congrArg Prod.snd hpair
      subst hb hw
      exact (h w .refl).2
  | halt => cases hrun
  | call c k ih =>
      obtain ⟨x, hx, hrest⟩ := Option.bind_eq_some_iff.mp hrun
      obtain ⟨w₁, henv, hcall⟩ := hanswer w c x hx
      exact ih _ ((h w₁ henv).2 _ _ hcall) hrest

end Prog

/-! ## Calls made in a world -/

/-- The calls of a trace made one after another from `w` to `w'`, in a world that changes only
by them. -/
inductive World.Path (e : World Call Ret W) : W → List (Σ c, Ret c) → W → Prop
  | nil (w : W) : Path e w [] w
  | cons {w w₁ w' : W} {c : Call} {r : Ret c} {t : List (Σ c, Ret c)} :
      e.call w c r w₁ → Path e w₁ t w' → Path e w (⟨c, r⟩ :: t) w'

namespace World.Path

variable {e : World Call Ret W} {w w' : W} {t t' : List (Σ c, Ret c)}

theorem nil_inv (h : e.Path w [] w') : w' = w := by
  cases h
  rfl

theorem cons_inv {c : Call} {r : Ret c} (h : e.Path w (⟨c, r⟩ :: t) w') :
    ∃ w₁, e.call w c r w₁ ∧ e.Path w₁ t w' := by
  cases h with
  | cons hcall hrest => exact ⟨_, hcall, hrest⟩

theorem append_inv (h : e.Path w (t ++ t') w') : ∃ w₁, e.Path w t w₁ ∧ e.Path w₁ t' w' := by
  induction t generalizing w with
  | nil => exact ⟨w, .nil w, h⟩
  | cons x t ih =>
      obtain ⟨w₁, hcall, hrest⟩ := cons_inv h
      obtain ⟨w₂, h₁, h₂⟩ := ih hrest
      exact ⟨w₂, .cons hcall h₁, h₂⟩

-- calls that leave the world alone may be left out
theorem filter {p : (Σ c, Ret c) → Bool}
    (hp : ∀ w c r w', p ⟨c, r⟩ = false → e.call w c r w' → w' = w) (h : e.Path w t w') :
    e.Path w (t.filter p) w' := by
  induction h with
  | nil w => exact .nil w
  | @cons w w₁ w' c r t hcall _ ih =>
      cases hc : p ⟨c, r⟩ with
      | true =>
          rw [List.filter_cons_of_pos hc]
          exact .cons hcall ih
      | false =>
          rw [List.filter_cons_of_neg (by rw [hc]; exact Bool.false_ne_true)]
          rw [hp w c r w₁ hc hcall] at ih
          exact ih

end World.Path

namespace Prog

theorem path_runWith {e : World Call Ret W} {answer : W → (c : Call) → Ret c × W}
    (hanswer : ∀ w c, e.call w c (answer w c).1 (answer w c).2) (m : Prog Call Ret α) (w : W) :
    e.Path w (m.runWith answer w).1 (m.runWith answer w).2.2 := by
  induction m generalizing w with
  | ret a => exact .nil w
  | halt => exact .nil w
  | call c k ih => exact .cons (hanswer w c) (ih _ _)

/-! ## Programs confined to harmless calls -/

/-- The program calls only what meets `ok`, it does not halt, and its results meet `Q`. -/
def Confined (ok : Call → Prop) (Q : α → Prop) : Prog Call Ret α → Prop
  | .ret a => Q a
  | .halt => False
  | .call c k => ok c ∧ ∀ r, (k r).Confined ok Q

section Confined

variable {ok : Call → Prop} {Q : α → Prop} {m : Prog Call Ret α}

theorem Confined.bind {f : α → Prog Call Ret β} {Q' : β → Prop} (h : m.Confined ok Q)
    (hf : ∀ a, Q a → (f a).Confined ok Q') : (m >>= f).Confined ok Q' := by
  induction m with
  | ret a => exact hf a h
  | halt => exact h.elim
  | call c k ih => exact ⟨h.1, fun r => ih r (h.2 r)⟩

theorem Confined.mono {Q' : α → Prop} (h : m.Confined ok Q) (hQ : ∀ a, Q a → Q' a) :
    m.Confined ok Q' := by
  induction m with
  | ret a => exact hQ a h
  | halt => exact h.elim
  | call c k ih => exact ⟨h.1, fun r => ih r (h.2 r)⟩

theorem Confined.trace {t : List (Σ c, Ret c)} {o : Option α} (h : m.Confined ok Q)
    (htr : Trace m t o) : (∀ x ∈ t, ok x.1) ∧ ∃ a, o = some a ∧ Q a := by
  induction htr with
  | ret a => exact ⟨fun x hx => absurd hx List.not_mem_nil, a, rfl, h⟩
  | halt => exact h.elim
  | call r _ ih =>
      obtain ⟨hrest, hend⟩ := ih (h.2 r)
      exact ⟨List.forall_mem_cons.mpr ⟨h.1, hrest⟩, hend⟩

-- what the environment and such calls keep, the program keeps
theorem Confined.wp {e : World Call Ret W} {I P : W → Prop} (h : m.Confined ok Q)
    (hP : Steady e I P) (hcall : ∀ w c r w', ok c → e.call w c r w' → P w → P w') {w : W}
    (hw : P w) : m.wp e I (fun a w' => P w' ∧ Q a) w := by
  induction m generalizing w with
  | ret a => exact wp_ret hP (fun _ hw => ⟨hw, h⟩) hw
  | halt => exact h.elim
  | call c k ih =>
      exact wp_call hP (fun w hw r w' hr => ih r (h.2 r) (hcall w c r w' h.1 hr hw)) hw

end Confined

end Prog

/-! ## A client that runs one program after another -/

variable {σ Req Resp : Type}

/-- `lib` is what the client keeps from call to call, `cur` the request it is working on with the
rest of the program, `log` the requests it has completed. -/
structure Client (Call : Type) (Ret : Call → Type) (W σ Req Resp : Type) where
  lib : σ
  cur : Option (Req × Prog Call Ret (Resp × σ))
  world : W
  log : List (Req × Resp)

inductive ClientLabel (Call : Type) (Ret : Call → Type) (Req : Type)
  | env
  | begin (req : Req)
  | call (c : Call) (r : Ret c)
  | finish

inductive Client.Step (e : World Call Ret W) (body : Req → σ → Prog Call Ret (Resp × σ)) :
    Client Call Ret W σ Req Resp → ClientLabel Call Ret Req → Client Call Ret W σ Req Resp → Prop
  | env {lib cur w w' log} : e.env w w' → Step e body ⟨lib, cur, w, log⟩ .env ⟨lib, cur, w', log⟩
  | begin {lib w log} (req : Req) :
      Step e body ⟨lib, none, w, log⟩ (.begin req) ⟨lib, some (req, body req lib), w, log⟩
  | call {lib req c k w r w' log} : e.call w c r w' →
      Step e body ⟨lib, some (req, .call c k), w, log⟩ (.call c r) ⟨lib, some (req, k r), w', log⟩
  | finish {lib req a lib' w log} :
      Step e body ⟨lib, some (req, .ret (a, lib')), w, log⟩ .finish
        ⟨lib', none, w, log ++ [(req, a)]⟩

/-- A condition on the world in which a request begins and on the answers to calls. -/
def Client.Meets (okBegin : W → Req → Prop) (okCall : (c : Call) → Ret c → Prop)
    (s : Client Call Ret W σ Req Resp) : ClientLabel Call Ret Req → Prop
  | .begin req => okBegin s.world req
  | .call c r => okCall c r
  | _ => True

/-- The client stands where `B` holds, or its request will be carried out to there with a good
result. -/
def Client.Between (e : World Call Ret W) (okCall : (c : Call) → Ret c → Prop) (I : W → Prop)
    (B : σ → W → Prop) (G : Req → Resp → W → Prop) (s : Client Call Ret W σ Req Resp) : Prop :=
  match s.cur with
  | none => B s.lib s.world
  | some (req, m) => m.wp (e.only okCall) I (fun x w => B x.2 w ∧ G req x.1 w) s.world

section Run

variable {e : World Call Ret W} {body : Req → σ → Prog Call Ret (Resp × σ)}
  {I : W → Prop} {B : σ → W → Prop} {G : Req → Resp → W → Prop}
  {okBegin : W → Req → Prop} {okCall : (c : Call) → Ret c → Prop}
  {s₀ s : Client Call Ret W σ Req Resp}

theorem Client.Between.inv (hB : ∀ lib, Steady e I (B lib))
    (h : Client.Between e okCall I B G s) : I s.world := by
  unfold Client.Between at h
  split at h
  · exact (hB s.lib).inv _ h
  · exact Prog.wp_inv h

/-- The run rule: if `B` holds between requests and every request that begins well is carried out
from `B` to `B` with a good result, then every completed request of a run has a good result. -/
theorem Client.run_between (hB : ∀ lib, Steady e I (B lib))
    (hgoodEnv : ∀ req a w w', e.env w w' → G req a w → G req a w')
    (hgoodCall : ∀ req a w c r w', e.call w c r w' → G req a w → G req a w')
    (hbody : ∀ lib w req, B lib w → okBegin w req →
      (body req lib).wp (e.only okCall) I (fun x w' => B x.2 w' ∧ G req x.1 w') w)
    (h : RunsTo (Client.Step e body) (Client.Meets okBegin okCall) s₀ s)
    (hcur : s₀.cur = none) (hlog : s₀.log = []) (h₀ : B s₀.lib s₀.world) :
    Client.Between e okCall I B G s ∧ ∀ x ∈ s.log, G x.1 x.2 s.world := by
  refine h.invariant (I := fun s =>
    Client.Between e okCall I B G s ∧ ∀ x ∈ s.log, G x.1 x.2 s.world) ?_ ?_
  · rw [Client.Between, hcur, hlog]
    exact ⟨h₀, fun x hx => absurd hx List.not_mem_nil⟩
  · rintro s label s' ⟨hnow, hpast⟩ hok hstep
    cases hstep with
    | @env lib cur w w' log henv =>
        refine ⟨?_, fun x hx => hgoodEnv _ _ _ _ henv (hpast x hx)⟩
        cases cur with
        | none => exact (hB lib).env _ _ henv hnow
        | some cur => exact Prog.wp_env hnow (.single henv)
    | begin req => exact ⟨hbody _ _ req hnow hok, hpast⟩
    | @call lib req c k w r w' log hcall =>
        exact ⟨(hnow w .refl).2 r w' ⟨hok, hcall⟩,
          fun x hx => hgoodCall _ _ _ _ _ _ hcall (hpast x hx)⟩
    | @finish lib req a lib' w log =>
        obtain ⟨hb, hgood⟩ := (hnow w .refl).2
        refine ⟨hb, fun x hx => ?_⟩
        rcases List.mem_append.mp hx with hold | hnew
        · exact hpast x hold
        · rw [List.mem_singleton.mp hnew]
          exact hgood

theorem Client.run (hB : ∀ lib, Steady e I (B lib))
    (hgoodEnv : ∀ req a w w', e.env w w' → G req a w → G req a w')
    (hgoodCall : ∀ req a w c r w', e.call w c r w' → G req a w → G req a w')
    (hbody : ∀ lib w req, B lib w → okBegin w req →
      (body req lib).wp (e.only okCall) I (fun x w' => B x.2 w' ∧ G req x.1 w') w)
    (h : RunsTo (Client.Step e body) (Client.Meets okBegin okCall) s₀ s)
    (hcur : s₀.cur = none) (hlog : s₀.log = []) (h₀ : B s₀.lib s₀.world) :
    I s.world ∧ ∀ x ∈ s.log, G x.1 x.2 s.world := by
  obtain ⟨hnow, hpast⟩ := Client.run_between hB hgoodEnv hgoodCall hbody h hcur hlog h₀
  exact ⟨hnow.inv hB, hpast⟩

/-- If every request that ends well leaves `B`, then in a run whose requests all end well each one
begins where `B` holds. -/
theorem Client.run_begins (good : Req → Resp → Prop) (hB : ∀ lib, Steady e I (B lib))
    (hbegin : ∀ lib w req, B lib w → okBegin w req)
    (hbody : ∀ lib w req, B lib w →
      (body req lib).wp (e.only okCall) I (fun x w' => good req x.1 → B x.2 w') w)
    (h : RunsTo (Client.Step e body) (Client.Meets (fun _ _ => True) okCall) s₀ s)
    (hcur : s₀.cur = none) (h₀ : B s₀.lib s₀.world) (hgood : ∀ x ∈ s.log, good x.1 x.2) :
    RunsTo (Client.Step e body) (Client.Meets okBegin okCall) s₀ s ∧
      match s.cur with
      | none => B s.lib s.world
      | some (req, m) => m.wp (e.only okCall) I (fun x w => good req x.1 → B x.2 w) s.world := by
  induction h with
  | start =>
      rw [hcur]
      exact ⟨.start, h₀⟩
  | @next s a s' _ hok hstep ih =>
      cases hstep with
      | @env lib cur w w' log henv =>
          obtain ⟨hrun, hnow⟩ := ih hgood
          refine ⟨.next (a := .env) hrun trivial (.env henv), ?_⟩
          cases cur with
          | none => exact (hB lib).env _ _ henv hnow
          | some cur => exact Prog.wp_env hnow (.single henv)
      | begin req =>
          obtain ⟨hrun, hnow⟩ := ih hgood
          exact ⟨.next (a := .begin req) hrun (hbegin _ _ req hnow) (.begin req),
            hbody _ _ req hnow⟩
      | @call lib req c k w r w' log hcall =>
          obtain ⟨hrun, hnow⟩ := ih hgood
          exact ⟨.next (a := .call c r) hrun hok (.call hcall), (hnow w .refl).2 r w' ⟨hok, hcall⟩⟩
      | @finish lib req a lib' w log =>
          obtain ⟨hrun, hnow⟩ := ih fun x hx => hgood x (List.mem_append_left _ hx)
          have hlast := hgood (req, a) (List.mem_append_right _ (List.mem_singleton_self _))
          exact ⟨.next (a := .finish) hrun trivial .finish, (hnow w .refl).2 hlast⟩

end Run

section RunWith

variable {e : World Call Ret W} {body : Req → σ → Prog Call Ret (Resp × σ)}
  {okBegin : W → Req → Prop} {okCall : (c : Call) → Ret c → Prop}
  {s₀ : Client Call Ret W σ Req Resp} {lib lib' : σ} {req : Req} {a : Resp} {w w' : W}
  {log : List (Req × Resp)}

theorem Client.env_steps {cur : Option (Req × Prog Call Ret (Resp × σ))}
    (h : RunsTo (Client.Step e body) (Client.Meets okBegin okCall) s₀ ⟨lib, cur, w, log⟩)
    (henv : ReflTransGen e.env w w') :
    RunsTo (Client.Step e body) (Client.Meets okBegin okCall) s₀ ⟨lib, cur, w', log⟩ := by
  induction henv with
  | refl => exact h
  | tail _ hstep ih => exact .next (a := .env) ih trivial (.env hstep)

-- a request whose calls a function answers is a run of the client
theorem Client.request? (answer : W → (c : Call) → Option (Ret c × W))
    (hanswer : ∀ w c x, answer w c = some x → okCall c x.1 ∧
      ∃ w₁, ReflTransGen e.env w w₁ ∧ e.call w₁ c x.1 x.2)
    (h : RunsTo (Client.Step e body) (Client.Meets okBegin okCall) s₀ ⟨lib, none, w, log⟩)
    (hbegin : okBegin w req)
    (hrun : (body req lib).runWith? answer w = some ((a, lib'), w')) :
    RunsTo (Client.Step e body) (Client.Meets okBegin okCall) s₀
      ⟨lib', none, w', log ++ [(req, a)]⟩ := by
  have hrest : ∀ (m : Prog Call Ret (Resp × σ)) (w : W),
      RunsTo (Client.Step e body) (Client.Meets okBegin okCall) s₀ ⟨lib, some (req, m), w, log⟩ →
      m.runWith? answer w = some ((a, lib'), w') →
      RunsTo (Client.Step e body) (Client.Meets okBegin okCall) s₀
        ⟨lib', none, w', log ++ [(req, a)]⟩ := by
    intro m
    induction m with
    | ret x =>
        intro w hnow hrun
        have hpair := Option.some.inj hrun
        have hx : x = (a, lib') := congrArg Prod.fst hpair
        have hw : w = w' := congrArg Prod.snd hpair
        subst hx hw
        exact .next (a := .finish) hnow trivial .finish
    | halt =>
        intro w _ hrun
        cases hrun
    | call c k ih =>
        intro w hnow hrun
        obtain ⟨x, hx, hlater⟩ := Option.bind_eq_some_iff.mp hrun
        obtain ⟨hok, w₁, henv, hcall⟩ := hanswer w c x hx
        have hnext : Client.Meets okBegin okCall
            (⟨lib, some (req, .call c k), w₁, log⟩ : Client Call Ret W σ Req Resp)
            (.call c x.1) := hok
        exact ih _ _ (.next (Client.env_steps hnow henv) hnext (.call hcall)) hlater
  exact hrest _ w (.next (a := .begin req) h hbegin (.begin req)) hrun

theorem Client.request (answer : W → (c : Call) → Ret c × W)
    (hanswer : ∀ w c, okCall c (answer w c).1 ∧
      ∃ w₁, ReflTransGen e.env w w₁ ∧ e.call w₁ c (answer w c).1 (answer w c).2)
    (h : RunsTo (Client.Step e body) (Client.Meets okBegin okCall) s₀ ⟨lib, none, w, log⟩)
    (hbegin : okBegin w req)
    (hrun : ((body req lib).runWith answer w).2 = (some (a, lib'), w')) :
    RunsTo (Client.Step e body) (Client.Meets okBegin okCall) s₀
      ⟨lib', none, w', log ++ [(req, a)]⟩ := by
  refine Client.request? (fun w c => some (answer w c)) (fun w c x hx => ?_) h hbegin
    (Prog.runWith?_of_runWith hrun)
  rw [← Option.some.inj hx]
  exact hanswer w c

end RunWith

/-! ## Requests carried out one after another -/

section Session

variable {body : Req → σ → Prog Call Ret (Resp × σ)} {s : σ}

/-- The rounds of a client that keeps `s` between its requests: each request with its calls and its
response.  A program that halts ends the session. -/
inductive Session (body : Req → σ → Prog Call Ret (Resp × σ)) :
    σ → List (Req × List (Σ c, Ret c) × Option Resp) → Prop
  | nil (s : σ) : Session body s []
  | halt {s : σ} {req : Req} {t : List (Σ c, Ret c)} :
      (body req s).Trace t none → Session body s [(req, t, none)]
  | cons {s s' : σ} {req : Req} {t : List (Σ c, Ret c)} {a : Resp}
      {rounds : List (Req × List (Σ c, Ret c) × Option Resp)} :
      (body req s).Trace t (some (a, s')) → Session body s' rounds →
      Session body s ((req, t, some a) :: rounds)

/-- What one request keeps, with the number of requests before it, holds in every round. -/
theorem Session.rounds {B : ℕ → σ → Prop} {G : ℕ → Req → List (Σ c, Ret c) → Option Resp → Prop}
    (hbody : ∀ n s req t o, B n s → (body req s).Trace t o →
      G n req t (o.map Prod.fst) ∧ ∀ x, o = some x → B (n + 1) x.2)
    {rounds : List (Req × List (Σ c, Ret c) × Option Resp)} (h : Session body s rounds) {n : ℕ}
    (hs : B n s) : ∀ k r, rounds[k]? = some r → G (n + k) r.1 r.2.1 r.2.2 := by
  induction h generalizing n with
  | nil s => exact fun k r hr => absurd hr (by simp)
  | @halt s req t htr =>
      intro k r hr
      cases k with
      | zero =>
          rw [← Option.some.inj hr]
          exact (hbody n s req t none hs htr).1
      | succ k => exact absurd hr (by simp)
  | @cons s s' req t a rounds htr _ ih =>
      obtain ⟨hG, hB⟩ := hbody n s req t _ hs htr
      intro k r hr
      cases k with
      | zero =>
          rw [← Option.some.inj hr]
          exact hG
      | succ k =>
          have hlater := ih (hB _ rfl) k r hr
          rwa [Nat.add_assoc, Nat.add_comm 1 k] at hlater

-- if every state has a request that finishes, there are sessions of every length
theorem Session.exists_length {P : Req → List (Σ c, Ret c) → Resp → Prop}
    (hstep : ∀ s, ∃ req t a s', (body req s).Trace t (some (a, s')) ∧ P req t a) (s : σ) (n : ℕ) :
    ∃ rounds, Session body s rounds ∧ rounds.length = n ∧
      ∀ r ∈ rounds, ∃ a, r.2.2 = some a ∧ P r.1 r.2.1 a := by
  induction n generalizing s with
  | zero => exact ⟨[], .nil s, rfl, fun r hr => absurd hr List.not_mem_nil⟩
  | succ n ih =>
      obtain ⟨req, t, a, s', htr, hP⟩ := hstep s
      obtain ⟨rounds, hrounds, hlen, hall⟩ := ih s'
      refine ⟨(req, t, some a) :: rounds, .cons htr hrounds, by rw [List.length_cons, hlen], ?_⟩
      exact List.forall_mem_cons.mpr ⟨⟨a, rfl, hP⟩, hall⟩

end Session

end SimConnect.Foundation
