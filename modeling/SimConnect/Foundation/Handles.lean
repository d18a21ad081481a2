import Mathlib.Logic.Function.Basic
import Mathlib.Data.Nat.Notation
import Mathlib.Data.List.Nodup

/-!
# Tables of handles

A table gives every handle in use its owner.  A number that is below 0 names no handle, and to
release one that is not in use does nothing.
-/

namespace SimConnect.Foundation

/-- Handles are natural numbers; `none` is a free one. -/
abbrev Handles (Owner : Type) := ℕ → Option Owner

variable {Owner : Type}

namespace Handles

def owner (t : Handles Owner) : Int → Option Owner
  | .ofNat n => t n
  | .negSucc _ => none

def acquire (t : Handles Owner) (n : ℕ) (o : Owner) : Handles Owner :=
  Function.update t n (some o)

def release (t : Handles Owner) : Int → Handles Owner
  | .ofNat n => Function.update t n none
  | .negSucc _ => t

variable {t : Handles Owner} {o : Owner} {h h' : Int} {n : ℕ}

@[simp] theorem owner_acquire_self : (t.acquire n o).owner n = some o :=
  Function.update_self _ _ _

theorem acquire_of_ne {m : ℕ} (hne : m ≠ n) : t.acquire n o m = t m :=
  Function.update_of_ne hne _ _

theorem owner_release_self : (t.release h).owner h = none := by
  cases h with
  | ofNat n => exact Function.update_self _ _ _
  | negSucc n => rfl

theorem owner_release_of_ne (hne : h' ≠ h) : (t.release h).owner h' = t.owner h' := by
  cases h with
  | ofNat n =>
      cases h' with
      | ofNat m =>
          have hmn : m ≠ n := fun hm => hne (congrArg Int.ofNat hm)
          exact Function.update_of_ne hmn _ _
      | negSucc m => rfl
  | negSucc n => rfl

-- a release touches no handle of another owner
theorem release_of_owner {m : ℕ} {o' : Owner} (howner : t.owner h = some o) (hm : t m = some o')
    (hne : o' ≠ o) : t.release h m = some o' := by
  have hother : (m : Int) ≠ h := by
    intro heq
    rw [← heq, show t.owner (m : Int) = t m from rfl, hm] at howner
    exact hne (Option.some.inj howner)
  exact (owner_release_of_ne hother).trans hm

end Handles

/-- The handles released one after another, each by the owner it has at that moment. -/
def OwnReleases : Handles Owner → List (Owner × Int) → Prop
  | _, [] => True
  | t, x :: xs => t.owner x.2 = some x.1 ∧ OwnReleases (t.release x.2) xs

/-- Different owners may look at the table once for all of them. -/
theorem ownReleases_iff {xs : List (Owner × Int)} (hxs : (xs.map Prod.fst).Nodup)
    (t : Handles Owner) : OwnReleases t xs ↔ ∀ x ∈ xs, t.owner x.2 = some x.1 := by
  induction xs generalizing t with
  | nil => exact iff_of_true trivial fun x hx => absurd hx List.not_mem_nil
  | cons x xs ih =>
      rw [List.map_cons, List.nodup_cons] at hxs
      rw [OwnReleases, ih hxs.2, List.forall_mem_cons]
      apply and_congr_right
      intro hx
      -- the handle just released is none of the others
      have hsame : ∀ y ∈ xs, ((t.release x.2).owner y.2 = some y.1 ↔ t.owner y.2 = some y.1) := by
        intro y hy
        by_cases heq : y.2 = x.2
        · rw [heq, Handles.owner_release_self, hx]
          have hne : x.1 ≠ y.1 := fun h => hxs.1 (h ▸ List.mem_map_of_mem hy)
          simp [hne]
        · rw [Handles.owner_release_of_ne heq]
      exact ⟨fun h y hy => (hsame y hy).mp (h y hy), fun h y hy => (hsame y hy).mpr (h y hy)⟩

end SimConnect.Foundation
