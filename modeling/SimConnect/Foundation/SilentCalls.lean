import SimConnect.Foundation.Program

/-!
# Programs that differ in silent calls

A call is visible, fatal or silent: a fatal call ends the process, and a silent one leaves the
surroundings as they were.  Two programs that differ in silent calls only can not be told apart by
what is visible of their executions.
-/

namespace SimConnect.Foundation

variable {Call : Type} {Ret : Call → Type} {α β W : Type}

/-- What answers the calls of a process; a call that is not visible leaves no trace. -/
structure Surroundings (Call : Type) (Ret : Call → Type) (visible : Call → Bool) (W : Type) where
  answer : W → (c : Call) → Ret c × W
  unseen : ∀ w c, visible c = false → (answer w c).2 = w

-- the visible part of a list of calls
def seen (visible : Call → Bool) (t : List (Σ c, Ret c)) : List (Σ c, Ret c) :=
  t.filter fun x => visible x.1

theorem seen_cons_true {visible : Call → Bool} {c : Call} (hc : visible c = true) (r : Ret c)
    (t : List (Σ c, Ret c)) : seen visible (⟨c, r⟩ :: t) = ⟨c, r⟩ :: seen visible t :=
  List.filter_cons_of_pos hc

theorem seen_cons_false {visible : Call → Bool} {c : Call} (hc : visible c = false) (r : Ret c)
    (t : List (Σ c, Ret c)) : seen visible (⟨c, r⟩ :: t) = seen visible t :=
  List.filter_cons_of_neg (by rw [hc]; exact Bool.false_ne_true)

namespace Prog

variable {visible fatal : Call → Bool}

/-! ## Executions -/

/-- The calls that return, the result, and the surroundings at the end; the result is `none` where
the process ends early. -/
def runIn (o : Surroundings Call Ret visible W) (fatal : Call → Bool) :
    Prog Call Ret α → W → List (Σ c, Ret c) × Option α × W
  | .ret a, w => ([], some a, w)
  | .halt, w => ([], none, w)
  | .call c k, w =>
      if fatal c then ([], none, w)
      else
        let rest := runIn o fatal (k (o.answer w c).1) (o.answer w c).2
        (⟨c, (o.answer w c).1⟩ :: rest.1, rest.2)

section Run

variable (o : Surroundings Call Ret visible W) {c : Call} {k : Ret c → Prog Call Ret α} (w : W)

theorem runIn_fatal (hc : fatal c = true) :
    (Prog.call c k).runIn o fatal w = ([], none, w) := by
  rw [runIn, if_pos hc]

theorem runIn_call (hc : fatal c = false) :
    (Prog.call c k).runIn o fatal w =
      (⟨c, (o.answer w c).1⟩ :: ((k (o.answer w c).1).runIn o fatal (o.answer w c).2).1,
        ((k (o.answer w c).1).runIn o fatal (o.answer w c).2).2) := by
  rw [runIn, if_neg (by rw [hc]; exact Bool.false_ne_true)]

end Run

/-! ## Silent calls -/

def Silent (visible fatal : Call → Bool) (c : Call) : Prop := visible c = false ∧ fatal c = false

-- a visible call comes next, whatever the silent calls before it answer
inductive Speaks (visible fatal : Call → Bool) : Prog Call Ret α → Prop
  | visible {c : Call} {k : Ret c → Prog Call Ret α} : visible c = true → fatal c = false →
      Speaks visible fatal (.call c k)
  | later {c : Call} {k : Ret c → Prog Call Ret α} : Silent visible fatal c →
      (∀ r, Speaks visible fatal (k r)) → Speaks visible fatal (.call c k)

-- the process ends before any visible call
inductive Mute (visible fatal : Call → Bool) : Prog Call Ret α → Prop
  | halt : Mute visible fatal .halt
  | fatal {c : Call} {k : Ret c → Prog Call Ret α} : fatal c = true →
      Mute visible fatal (.call c k)
  | later {c : Call} {k : Ret c → Prog Call Ret α} : Silent visible fatal c →
      (∀ r, Mute visible fatal (k r)) → Mute visible fatal (.call c k)

/-- The programs differ in silent calls only, up to an answer that is not `ok`: after that the first
goes on to a visible call and the second ends.  `Q` holds of their results. -/
inductive Alike (visible fatal : Call → Bool) (ok : (c : Call) → Ret c → Prop) (Q : α → Prop) :
    Prog Call Ret α → Prog Call Ret α → Prop
  | ret {a : α} : Q a → Alike visible fatal ok Q (.ret a) (.ret a)
  | halt : Alike visible fatal ok Q .halt .halt
  | both {c : Call} {k k' : Ret c → Prog Call Ret α} :
      (∀ r, ok c r → Alike visible fatal ok Q (k r) (k' r)) →
      (∀ r, ¬ ok c r → Speaks visible fatal (k r) ∧ Mute visible fatal (k' r)) →
      Alike visible fatal ok Q (.call c k) (.call c k')
  | left {c : Call} {k : Ret c → Prog Call Ret α} {m' : Prog Call Ret α} :
      Silent visible fatal c → (∀ r, Alike visible fatal ok Q (k r) m') →
      Alike visible fatal ok Q (.call c k) m'
  | right {c : Call} {k : Ret c → Prog Call Ret α} {m : Prog Call Ret α} :
      Silent visible fatal c → (∀ r, Alike visible fatal ok Q m (k r)) →
      Alike visible fatal ok Q m (.call c k)

section Alike

variable {ok : (c : Call) → Ret c → Prop} {Q : α → Prop} {m m' : Prog Call Ret α}
  (o : Surroundings Call Ret visible W)

theorem seen_runIn_silent {c : Call} {k : Ret c → Prog Call Ret α} (hc : Silent visible fatal c)
    (w : W) :
    seen visible ((Prog.call c k).runIn o fatal w).1 =
        seen visible ((k (o.answer w c).1).runIn o fatal w).1 ∧
      ((Prog.call c k).runIn o fatal w).2 = ((k (o.answer w c).1).runIn o fatal w).2 := by
  rw [runIn_call o w hc.2, o.unseen w c hc.1]
  exact ⟨seen_cons_false hc.1 _ _, rfl⟩

theorem Speaks.seen_ne_nil (h : Speaks visible fatal m) (w : W) :
    seen visible (m.runIn o fatal w).1 ≠ [] := by
  induction h with
  | visible hc hrun =>
      rw [runIn_call o w hrun, seen_cons_true hc]
      exact List.cons_ne_nil _ _
  | later hc _ ih =>
      rw [(seen_runIn_silent o hc w).1]
      exact ih _

theorem Mute.seen_nil (h : Mute visible fatal m) (w : W) :
    seen visible (m.runIn o fatal w).1 = [] ∧ (m.runIn o fatal w).2 = (none, w) := by
  induction h with
  | halt => exact ⟨rfl, rfl⟩
  | fatal hc =>
      rw [runIn_fatal o w hc]
      exact ⟨rfl, rfl⟩
  | later hc _ ih =>
      obtain ⟨hseen, hend⟩ := seen_runIn_silent o hc w
      rw [hseen, hend]
      exact ih _

/-- As long as the answers are `ok` the executions are the same but for what is not visible. -/
theorem Alike.runIn (h : Alike visible fatal ok Q m m') (w : W)
    (hok : ∀ x ∈ (m.runIn o fatal w).1, ok x.1 x.2) :
    seen visible (m.runIn o fatal w).1 = seen visible (m'.runIn o fatal w).1 ∧
      (m.runIn o fatal w).2 = (m'.runIn o fatal w).2 ∧
      ∀ a, (m.runIn o fatal w).2.1 = some a → Q a := by
  induction h generalizing w with
  | ret ha =>
      refine ⟨rfl, rfl, fun a heq => ?_⟩
      rw [← Option.some.inj heq]
      exact ha
  | halt => exact ⟨rfl, rfl, fun a heq => by cases heq⟩
  | @both c k k' _ _ ih =>
      cases hc : fatal c with
      | true =>
          rw [runIn_fatal o w hc, runIn_fatal o w hc]
          exact ⟨rfl, rfl, fun a heq => by cases heq⟩
      | false =>
          rw [runIn_call o w hc] at hok ⊢
          rw [runIn_call o w hc]
          obtain ⟨hfirst, hlater⟩ := List.forall_mem_cons.mp hok
          obtain ⟨hseen, hend, hQ⟩ := ih _ hfirst _ hlater
          refine ⟨?_, hend, hQ⟩
          cases hvis : visible c with
          | true => rw [seen_cons_true hvis, seen_cons_true hvis, hseen]
          | false => rw [seen_cons_false hvis, seen_cons_false hvis, hseen]
  | @left c k m' hc _ ih =>
      obtain ⟨hseen, hend⟩ := seen_runIn_silent (k := k) o hc w
      rw [hseen, hend]
      rw [runIn_call o w hc.2, o.unseen w c hc.1] at hok
      exact ih _ w (List.forall_mem_cons.mp hok).2
  | @right c k m hc _ ih =>
      obtain ⟨hseen, hend⟩ := seen_runIn_silent (k := k) o hc w
      rw [hseen, hend]
      exact ih _ w hok

/-- And an answer that is not shows. -/
theorem Alike.ok_of_seen (h : Alike visible fatal ok Q m m')
    (hsilent : ∀ c r, Silent visible fatal c → ok c r) (w : W)
    (hseen : seen visible (m.runIn o fatal w).1 = seen visible (m'.runIn o fatal w).1) :
    ∀ x ∈ (m.runIn o fatal w).1, ok x.1 x.2 := by
  induction h generalizing w with
  | ret _ => exact fun x hx => absurd hx List.not_mem_nil
  | halt => exact fun x hx => absurd hx List.not_mem_nil
  | @both c k k' _ hbad ih =>
      cases hc : fatal c with
      | true =>
          rw [runIn_fatal o w hc]
          exact fun x hx => absurd hx List.not_mem_nil
      | false =>
          rw [runIn_call o w hc] at hseen ⊢
          rw [runIn_call o w hc] at hseen
          have hlater : seen visible ((k (o.answer w c).1).runIn o fatal (o.answer w c).2).1 =
              seen visible ((k' (o.answer w c).1).runIn o fatal (o.answer w c).2).1 := by
            cases hvis : visible c with
            | true =>
                rw [seen_cons_true hvis, seen_cons_true hvis] at hseen
                exact List.tail_eq_of_cons_eq hseen
            | false =>
                rw [seen_cons_false hvis, seen_cons_false hvis] at hseen
                exact hseen
          have hfirst : ok c (o.answer w c).1 := by
            by_contra hnot
            obtain ⟨hspeaks, hmute⟩ := hbad _ hnot
            rw [(hmute.seen_nil o _).1] at hlater
            exact hspeaks.seen_ne_nil o _ hlater
          exact List.forall_mem_cons.mpr ⟨hfirst, ih _ hfirst _ hlater⟩
  | @left c k m' hc _ ih =>
      rw [(seen_runIn_silent (k := k) o hc w).1] at hseen
      rw [runIn_call o w hc.2, o.unseen w c hc.1]
      exact List.forall_mem_cons.mpr ⟨hsilent c _ hc, ih _ w hseen⟩
  | @right c k m hc _ ih =>
      rw [(seen_runIn_silent (k := k) o hc w).1] at hseen
      exact ih _ w hseen

-- a program that speaks or is mute does so whatever follows
theorem Speaks.bind {f : α → Prog Call Ret β} (h : Speaks visible fatal m) :
    Speaks visible fatal (m >>= f) := by
  induction h with
  | visible hc hrun => exact .visible hc hrun
  | later hc _ ih => exact .later hc ih

theorem Mute.bind {f : α → Prog Call Ret β} (h : Mute visible fatal m) :
    Mute visible fatal (m >>= f) := by
  induction h with
  | halt => exact .halt
  | fatal hc => exact .fatal hc
  | later hc _ ih => exact .later hc ih

theorem Alike.bind {f f' : α → Prog Call Ret β} {Q' : β → Prop}
    (h : Alike visible fatal ok Q m m') (hf : ∀ a, Q a → Alike visible fatal ok Q' (f a) (f' a)) :
    Alike visible fatal ok Q' (m >>= f) (m' >>= f') := by
  induction h with
  | ret ha => exact hf _ ha
  | halt => exact .halt
  | both _ hbad ih =>
      exact .both ih fun r hr => ⟨(hbad r hr).1.bind, (hbad r hr).2.bind⟩
  | left hc _ ih => exact .left hc ih
  | right hc _ ih => exact .right hc ih

end Alike

end Prog

end SimConnect.Foundation
