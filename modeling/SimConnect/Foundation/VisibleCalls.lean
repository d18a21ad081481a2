import SimConnect.Foundation.SilentCalls

/-!
# What is visible of a program

The lists of visible calls that a program can make, exactly: one rule for each way in which a
program goes on, so that a program is read from its start to its end.
-/

namespace SimConnect.Foundation

variable {Call : Type} {Ret : Call → Type} {α β : Type} {visible : Call → Bool}

namespace Prog

theorem bind_assoc {γ : Type} (m : Prog Call Ret α) (f : α → Prog Call Ret β)
    (g : β → Prog Call Ret γ) : (m.bind f).bind g = m.bind fun a => (f a).bind g := by
  induction m with
  | ret a => rfl
  | halt => rfl
  | call c k ih => exact congrArg (Prog.call c) (funext ih)

theorem bind_ret (m : Prog Call Ret α) : m.bind .ret = m := by
  induction m with
  | ret a => rfl
  | halt => rfl
  | call c k ih => exact congrArg (Prog.call c) (funext ih)

instance : LawfulMonad (Prog Call Ret) :=
  LawfulMonad.mk' _ (fun m => bind_ret m) (fun _ _ => rfl) (fun m f g => bind_assoc m f g)

-- some execution with allowed calls only shows the list `t` and has an outcome that meets `O`
def Shows (visible : Call → Bool) (allowed : Call → Prop) (m : Prog Call Ret α)
    (t : List (Σ c, Ret c)) (O : Option α → Prop) : Prop :=
  ∃ t' o, m.Trace t' o ∧ (∀ x ∈ t', allowed x.1) ∧ seen visible t' = t ∧ O o

variable {allowed : Call → Prop} {t : List (Σ c, Ret c)} {O : Option α → Prop}

theorem shows_ret {a : α} :
    (Prog.ret a : Prog Call Ret α).Shows visible allowed t O ↔ t = [] ∧ O (some a) := by
  constructor
  · rintro ⟨t', o, htr, -, hseen, hO⟩
    cases htr
    exact ⟨hseen.symm, hO⟩
  · rintro ⟨ht, hO⟩
    exact ⟨[], some a, .ret a, fun x hx => absurd hx List.not_mem_nil, ht.symm, hO⟩

theorem shows_halt :
    (Prog.halt : Prog Call Ret α).Shows visible allowed t O ↔ t = [] ∧ O none := by
  constructor
  · rintro ⟨t', o, htr, -, hseen, hO⟩
    cases htr
    exact ⟨hseen.symm, hO⟩
  · rintro ⟨ht, hO⟩
    exact ⟨[], none, .halt, fun x hx => absurd hx List.not_mem_nil, ht.symm, hO⟩

section Call

variable {c : Call} {k : Ret c → Prog Call Ret α}

theorem shows_visible (hc : visible c = true) :
    (Prog.call c k).Shows visible allowed t O ↔
      allowed c ∧ ∃ r t', t = ⟨c, r⟩ :: t' ∧ (k r).Shows visible allowed t' O := by
  constructor
  · rintro ⟨t', o, htr, hall, hseen, hO⟩
    cases htr with
    | call r hrest =>
        obtain ⟨hfirst, hlater⟩ := List.forall_mem_cons.mp hall
        rw [seen_cons_true hc] at hseen
        exact ⟨hfirst, r, _, hseen.symm, _, o, hrest, hlater, rfl, hO⟩
  · rintro ⟨hfirst, r, t', ht, t₁, o, hrest, hlater, hseen, hO⟩
    refine ⟨⟨c, r⟩ :: t₁, o, .call r hrest, List.forall_mem_cons.mpr ⟨hfirst, hlater⟩, ?_, hO⟩
    rw [seen_cons_true hc, hseen, ht]

theorem shows_hidden (hc : visible c = false) :
    (Prog.call c k).Shows visible allowed t O ↔
      allowed c ∧ ∃ r, (k r).Shows visible allowed t O := by
  constructor
  · rintro ⟨t', o, htr, hall, hseen, hO⟩
    cases htr with
    | call r hrest =>
        obtain ⟨hfirst, hlater⟩ := List.forall_mem_cons.mp hall
        rw [seen_cons_false hc] at hseen
        exact ⟨hfirst, r, _, o, hrest, hlater, hseen, hO⟩
  · rintro ⟨hfirst, r, t₁, o, hrest, hlater, hseen, hO⟩
    refine ⟨⟨c, r⟩ :: t₁, o, .call r hrest, List.forall_mem_cons.mpr ⟨hfirst, hlater⟩, ?_, hO⟩
    rw [seen_cons_false hc, hseen]

end Call

-- a program confined to hidden calls that are allowed shows nothing, and it comes to its end
theorem Confined.shows_bind [∀ c, Inhabited (Ret c)] {m : Prog Call Ret β} {Q : β → Prop}
    (h : m.Confined (fun c => visible c = false ∧ allowed c) Q) {f : β → Prog Call Ret α}
    {R : Prop} (hf : ∀ b, Q b → ((f b).Shows visible allowed t O ↔ R)) :
    (m >>= f).Shows visible allowed t O ↔ R := by
  induction m with
  | ret b => exact hf b h
  | halt => exact h.elim
  | call c k ih =>
      have hcall : ((Prog.call c k) >>= f).Shows visible allowed t O ↔
          allowed c ∧ ∃ r, ((k r) >>= f).Shows visible allowed t O := shows_hidden h.1.1
      rw [hcall]
      constructor
      · rintro ⟨-, r, hr⟩
        exact (ih r (h.2 r)).mp hr
      · intro hR
        exact ⟨h.1.2, default, (ih _ (h.2 _)).mpr hR⟩

end Prog

end SimConnect.Foundation
