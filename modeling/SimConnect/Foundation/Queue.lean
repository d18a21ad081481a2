import SimConnect.Foundation.Transition
import Mathlib.Data.List.Basic

/-!
# Queues with their history

A queue carries everything that was ever put in and taken out, so that it cannot lose, repeat or
reorder an element.  A pair of them lies between a client and a server: requests go one way and
replies the other.
-/

namespace SimConnect.Foundation

variable {α β : Type}

/-! ## One queue -/

structure Queue (α : Type) where
  put : List α
  got : List α
  contents : List α
  conserved : put = got ++ contents

namespace Queue

def empty : Queue α where
  put := []
  got := []
  contents := []
  conserved := rfl

def enqueue (q : Queue α) (a : α) : Queue α where
  put := q.put ++ [a]
  got := q.got
  contents := q.contents ++ [a]
  conserved := by rw [q.conserved, List.append_assoc]

def dequeue (q : Queue α) {a : α} {rest : List α} (h : q.contents = a :: rest) : Queue α where
  put := q.put
  got := q.got ++ [a]
  contents := rest
  conserved := by rw [q.conserved, h, List.append_assoc, List.singleton_append]

theorem put_length (q : Queue α) : q.put.length = q.got.length + q.contents.length := by
  rw [q.conserved, List.length_append]

theorem getElem?_put (q : Queue α) {k : ℕ} {a : α} (h : q.got[k]? = some a) :
    q.put[k]? = some a := by
  obtain ⟨hk, _⟩ := List.getElem?_eq_some_iff.mp h
  rw [q.conserved, List.getElem?_append_left hk, h]

-- the next element is the one at the place that the history has reached
theorem next (q : Queue α) {a : α} {rest : List α} (h : q.contents = a :: rest) :
    q.put[q.got.length]? = some a := by
  rw [q.conserved, h, List.getElem?_append_right (Nat.le_refl _), Nat.sub_self]
  rfl

end Queue

/-! ## Replies in the order of the requests -/

/-- Every element of `bs` answers the element of `as` at its place. -/
def Answers (R : α → β → Prop) (as : List α) (bs : List β) : Prop :=
  ∀ (k : ℕ) (b : β), bs[k]? = some b → ∃ a, as[k]? = some a ∧ R a b

section Answers

variable {R : α → β → Prop} {as : List α} {bs : List β}

theorem answers_nil (as : List α) : Answers R as [] := by
  intro k b h
  rw [List.getElem?_nil] at h
  cases h

theorem Answers.length_le (h : Answers R as bs) : bs.length ≤ as.length := by
  by_contra hlt
  -- the reply at the first place past the requests answers nothing
  have hk : as.length < bs.length := Nat.lt_of_not_le hlt
  obtain ⟨a, ha, _⟩ := h as.length bs[as.length] (List.getElem?_eq_getElem hk)
  rw [List.getElem?_eq_none (Nat.le_refl _)] at ha
  cases ha

theorem getElem?_append_of_some {l l' : List α} {k : ℕ} {a : α} (h : l[k]? = some a) :
    (l ++ l')[k]? = some a := by
  obtain ⟨hk, _⟩ := List.getElem?_eq_some_iff.mp h
  rw [List.getElem?_append_left hk, h]

theorem Answers.request (h : Answers R as bs) (a : α) : Answers R (as ++ [a]) bs := by
  intro k b hb
  obtain ⟨a', ha', hR⟩ := h k b hb
  exact ⟨a', getElem?_append_of_some ha', hR⟩

theorem Answers.reply (h : Answers R as bs) {a : α} {b : β} (ha : as[bs.length]? = some a)
    (hR : R a b) : Answers R as (bs ++ [b]) := by
  intro k b' hb'
  by_cases hk : k < bs.length
  · rw [List.getElem?_append_left hk] at hb'
    exact h k b' hb'
  · rw [List.getElem?_append_right (Nat.le_of_not_lt hk)] at hb'
    obtain ⟨hlt, hget⟩ := List.getElem?_eq_some_iff.mp hb'
    have hlast : k = bs.length := by
      rw [List.length_singleton] at hlt
      omega
    rw [List.getElem_singleton] at hget
    rw [hlast, ← hget]
    exact ⟨a, ha, hR⟩

end Answers

/-! ## Two queues between a client and a server -/

structure QueuePair (α β : Type) where
  request : Queue α
  reply : Queue β

inductive PairLabel (α β : Type)
  | clientPut (a : α)
  | serverGet
  | serverPut (b : β)
  | clientGet
  | internal

namespace QueuePair

def empty : QueuePair α β := ⟨.empty, .empty⟩

inductive Step (q : QueuePair α β) : PairLabel α β → QueuePair α β → Prop
  | clientPut (a : α) : Step q (.clientPut a) { q with request := q.request.enqueue a }
  | serverGet {a : α} {rest : List α} (h : q.request.contents = a :: rest) :
      Step q .serverGet { q with request := q.request.dequeue h }
  | serverPut (b : β) : Step q (.serverPut b) { q with reply := q.reply.enqueue b }
  | clientGet {b : β} {rest : List β} (h : q.reply.contents = b :: rest) :
      Step q .clientGet { q with reply := q.reply.dequeue h }
  | internal : Step q .internal q

variable {R : α → β → Prop} {q : QueuePair α β}

/-- Requests and replies on the way, those that the server holds included. -/
def outstanding (q : QueuePair α β) : ℕ :=
  q.request.contents.length + (q.request.got.length - q.reply.put.length) + q.reply.contents.length

-- what is on the way is what the client has put in and not got back
theorem outstanding_eq (h : Answers R q.request.got q.reply.put) :
    q.outstanding + q.reply.got.length = q.request.put.length := by
  have hle := h.length_le
  have hrequest := q.request.put_length
  have hreply := q.reply.put_length
  unfold outstanding
  omega

-- the reply that the client gets next answers its request at the same place
theorem next_reply (h : Answers R q.request.got q.reply.put) {b : β} {rest : List β}
    (hb : q.reply.contents = b :: rest) :
    ∃ a, q.request.got[q.reply.got.length]? = some a ∧
      q.request.put[q.reply.got.length]? = some a ∧ R a b := by
  obtain ⟨a, ha, hR⟩ := h _ b (q.reply.next hb)
  exact ⟨a, ha, q.request.getElem?_put ha, hR⟩

end QueuePair

end SimConnect.Foundation
