import SimConnect.Foundation.Program

/-!
# Calls that no execution makes, and calls that every execution makes

Two predicates on programs, each with a rule for sequences: one bounds the calls of all executions
from above, the other says that no complete execution does without a certain call.
-/

namespace SimConnect.Foundation.Prog

variable {Call : Type} {Ret : Call → Type} {α β : Type}

/-- The program calls only what meets `ok`, and its results meet `Q`; it may halt. -/
def Only (ok : Call → Prop) (Q : α → Prop) : Prog Call Ret α → Prop
  | .ret a => Q a
  | .halt => True
  | .call c k => ok c ∧ ∀ r, (k r).Only ok Q

section Only

variable {ok : Call → Prop} {Q : α → Prop} {m : Prog Call Ret α}

theorem Only.bind {f : α → Prog Call Ret β} {Q' : β → Prop} (h : m.Only ok Q)
    (hf : ∀ a, Q a → (f a).Only ok Q') : (m >>= f).Only ok Q' := by
  induction m with
  | ret a => exact hf a h
  | halt => exact trivial
  | call c k ih => exact ⟨h.1, fun r => ih r (h.2 r)⟩

theorem Only.trace {t : List (Σ c, Ret c)} {o : Option α} (h : m.Only ok Q) (htr : Trace m t o) :
    (∀ x ∈ t, ok x.1) ∧ ∀ a, o = some a → Q a := by
  induction htr with
  | ret a =>
      refine ⟨fun x hx => absurd hx List.not_mem_nil, fun b hb => ?_⟩
      rw [← Option.some.inj hb]
      exact h
  | halt => exact ⟨fun x hx => absurd hx List.not_mem_nil, fun b hb => absurd hb.symm (by simp)⟩
  | call r _ ih =>
      obtain ⟨hrest, hend⟩ := ih (h.2 r)
      exact ⟨List.forall_mem_cons.mpr ⟨h.1, hrest⟩, hend⟩

theorem Only.weaken {ok' : Call → Prop} (h : m.Only ok Q) (hok : ∀ c, ok c → ok' c) :
    m.Only ok' Q := by
  induction m with
  | ret a => exact h
  | halt => exact trivial
  | call c k ih => exact ⟨hok c h.1, fun r => ih r (h.2 r)⟩

-- both bounds on the calls of a program at once
theorem Confined.only {ok' : Call → Prop} {Q' : α → Prop} (h : m.Confined ok Q)
    (h' : m.Only ok' Q') : m.Confined (fun c => ok c ∧ ok' c) Q := by
  induction m with
  | ret a => exact h
  | halt => exact h
  | call c k ih => exact ⟨⟨h.1, h'.1⟩, fun r => ih r (h.2 r) (h'.2 r)⟩

end Only

/-- Every complete execution makes a call that meets `p`, or ends with a result that meets `Q`. -/
def Makes (p : Call → Prop) (Q : α → Prop) : Prog Call Ret α → Prop
  | .ret a => Q a
  | .halt => False
  | .call c k => p c ∨ ∀ r, (k r).Makes p Q

section Makes

variable {p : Call → Prop} {Q : α → Prop} {m : Prog Call Ret α}

theorem Makes.bind {f : α → Prog Call Ret β} {Q' : β → Prop} (h : m.Makes p Q)
    (hf : ∀ a, Q a → (f a).Makes p Q') : (m >>= f).Makes p Q' := by
  induction m with
  | ret a => exact hf a h
  | halt => exact h.elim
  | call c k ih =>
      cases h with
      | inl hc => exact Or.inl hc
      | inr hk => exact Or.inr fun r => ih r (hk r)

-- a program that never halts finishes
theorem Confined.makes {ok : Call → Prop} (h : m.Confined ok Q) : m.Makes p Q := by
  induction m with
  | ret a => exact h
  | halt => exact h
  | call c k ih => exact Or.inr fun r => ih r (h.2 r)

theorem Makes.mono {Q' : α → Prop} (h : m.Makes p Q) (hQ : ∀ a, Q a → Q' a) : m.Makes p Q' := by
  induction m with
  | ret a => exact hQ a h
  | halt => exact h
  | call c k ih =>
      cases h with
      | inl hc => exact Or.inl hc
      | inr hk => exact Or.inr fun r => ih r (hk r)

theorem Makes.trace {t : List (Σ c, Ret c)} {o : Option α} (h : m.Makes p Q)
    (htr : Trace m t o) : (∃ x ∈ t, p x.1) ∨ ∃ a, o = some a ∧ Q a := by
  induction htr with
  | ret a => exact Or.inr ⟨a, rfl, h⟩
  | halt => exact h.elim
  | call r _ ih =>
      cases h with
      | inl hc => exact Or.inl ⟨_, List.mem_cons_self .., hc⟩
      | inr hk =>
          cases ih (hk r) with
          | inl hin =>
              obtain ⟨x, hx, hp⟩ := hin
              exact Or.inl ⟨x, List.mem_cons_of_mem _ hx, hp⟩
          | inr hend => exact Or.inr hend

end Makes

end SimConnect.Foundation.Prog
