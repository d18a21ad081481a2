import SimConnect.Foundation.Lockstep

/-!
# A client and a server over a link that may lose things

A lossy link carries one thing at a time, as it was put, or loses it for good.  A client that waits
for each reply gets the answers to its own requests over it, the server takes every request at most
once, and once something is lost the client waits forever.
-/

namespace SimConnect.Foundation

variable {α β σ τ : Type}

/-- The operations of a link and what it can be found doing while there is one thing on it at
most. -/
structure LossyLink (α β σ : Type) where
  clientPut : σ → α → σ → Prop
  clientGet : σ → β → σ → Prop
  serverGet : σ → α → σ → Prop
  serverPut : σ → β → σ → Prop
  internal : σ → σ → Prop
  Quiet : σ → Prop
  Going : α → σ → Prop
  Coming : β → σ → Prop
  Lost : σ → Prop
  quiet_internal : ∀ s s', Quiet s → internal s s' → Quiet s'
  going_internal : ∀ a s s', Going a s → internal s s' → Going a s' ∨ Lost s'
  coming_internal : ∀ b s s', Coming b s → internal s s' → Coming b s' ∨ Lost s'
  lost_internal : ∀ s s', Lost s → internal s s' → Lost s'
  clientPut_going : ∀ s a s', Quiet s → clientPut s a s' → Going a s'
  serverPut_coming : ∀ s b s', Quiet s → serverPut s b s' → Coming b s'
  serverGet_going : ∀ a s a' s', Going a s → serverGet s a' s' → a' = a ∧ Quiet s'
  clientGet_coming : ∀ b s b' s', Coming b s → clientGet s b' s' → b' = b ∧ Quiet s'
  serverGet_only : ∀ s a s', serverGet s a s' → ¬ Quiet s ∧ ¬ Lost s ∧ ∀ b, ¬ Coming b s
  clientGet_only : ∀ s b s', clientGet s b s' → ¬ Quiet s ∧ ¬ Lost s ∧ ∀ a, ¬ Going a s

/-- `put` and `got` is what the client has put and got so far, `taken` what the server has taken. -/
structure Exchange (α β σ τ : Type) where
  link : σ
  server : ServerAt β τ
  put : List α
  taken : List α
  got : List β

namespace Exchange

/-- The steps of the link and of the server, as for a link that loses nothing. -/
inductive Env (L : LossyLink α β σ) (serve : τ → α → Option (β × τ) → Prop)
    (s : Exchange α β σ τ) : Exchange α β σ τ → Prop
  | internal {l : σ} : L.internal s.link l → Env L serve s { s with link := l }
  | take {l : σ} {t t' : τ} {a : α} {b : β} : s.server = .ready t → L.serverGet s.link a l →
      serve t a (some (b, t')) →
      Env L serve s { s with link := l, server := .holding t' b, taken := s.taken ++ [a] }
  | stop {l : σ} {t : τ} {a : α} : s.server = .ready t → L.serverGet s.link a l →
      serve t a none →
      Env L serve s { s with link := l, server := .stopped, taken := s.taken ++ [a] }
  | put {l : σ} {t : τ} {b : β} : s.server = .holding t b → L.serverPut s.link b l →
      Env L serve s { s with link := l, server := .ready t }

def clientPut (L : LossyLink α β σ) (s : Exchange α β σ τ) (a : α) (s' : Exchange α β σ τ) : Prop :=
  ∃ l, L.clientPut s.link a l ∧ s' = { s with link := l, put := s.put ++ [a] }

def clientGet (L : LossyLink α β σ) (s : Exchange α β σ τ) (b : β) (s' : Exchange α β σ τ) : Prop :=
  ∃ l, L.clientGet s.link b l ∧ s' = { s with link := l, got := s.got ++ [b] }

/-! ## Where the exchange is -/

-- everything so far has been answered
structure Idle (L : LossyLink α β σ) (R : α → Option β → Prop) (s : Exchange α β σ τ) : Prop where
  link : L.Quiet s.link
  server : ∃ t, s.server = .ready t
  taken : s.taken = s.put
  got : s.got.length = s.put.length
  answers : Answers (fun a b => R a (some b)) s.put s.got

/-- The request `a` or its answer is on the way, or no answer comes any more. -/
inductive Place (L : LossyLink α β σ) (R : α → Option β → Prop) (earlier : List α) (a : α)
    (s : Exchange α β σ τ) : Prop
  | going {t : τ} : L.Going a s.link → s.server = .ready t → s.taken = earlier →
      Place L R earlier a s
  | held {t : τ} {b : β} : L.Quiet s.link → s.server = .holding t b → R a (some b) →
      s.taken = earlier ++ [a] → Place L R earlier a s
  | coming {t : τ} {b : β} : L.Coming b s.link → s.server = .ready t → R a (some b) →
      s.taken = earlier ++ [a] → Place L R earlier a s
  | lost {t : τ} : L.Lost s.link → s.server = .ready t →
      (s.taken = earlier ∨ s.taken = earlier ++ [a]) → Place L R earlier a s
  | stopped : L.Quiet s.link → s.server = .stopped → R a none → s.taken = earlier ++ [a] →
      Place L R earlier a s

-- the client has put `a` and not got its answer
structure Waiting (L : LossyLink α β σ) (R : α → Option β → Prop) (a : α) (s : Exchange α β σ τ) :
    Prop where
  place : ∃ earlier, s.put = earlier ++ [a] ∧ s.got.length = earlier.length ∧ Place L R earlier a s
  answers : Answers (fun a b => R a (some b)) s.put s.got

section Steps

variable {L : LossyLink α β σ} {R : α → Option β → Prop} {serve : τ → α → Option (β × τ) → Prop}
  {s s' : Exchange α β σ τ} {a : α} {b : β} {earlier : List α}

theorem Env.logs (hstep : Env L serve s s') : s'.put = s.put ∧ s'.got = s.got := by
  cases hstep with
  | internal _ => exact ⟨rfl, rfl⟩
  | take _ _ _ => exact ⟨rfl, rfl⟩
  | stop _ _ _ => exact ⟨rfl, rfl⟩
  | put _ _ => exact ⟨rfl, rfl⟩

theorem Env.internals (s : Exchange α β σ τ) {l : σ}
    (h : Relation.ReflTransGen L.internal s.link l) :
    Relation.ReflTransGen (Env L serve) s { s with link := l } :=
  h.lift (fun l => { s with link := l }) fun _ _ hint => .internal hint

theorem Idle.env (h : Idle L R s) (hstep : Env L serve s s') : Idle L R s' := by
  obtain ⟨t, hready⟩ := h.server
  cases hstep with
  | internal hint =>
      exact ⟨L.quiet_internal _ _ h.link hint, h.server, h.taken, h.got, h.answers⟩
  | take _ hget _ => exact absurd h.link (L.serverGet_only _ _ _ hget).1
  | stop _ hget _ => exact absurd h.link (L.serverGet_only _ _ _ hget).1
  | put hholding _ =>
      rw [hready] at hholding
      cases hholding

theorem Place.env (hserve : Obeys serve R) (h : Place L R earlier a s) (hstep : Env L serve s s') :
    Place L R earlier a s' := by
  cases h with
  | going hlink hready htaken =>
      cases hstep with
      | internal hint =>
          rcases L.going_internal _ _ _ hlink hint with hgoing | hlost
          · exact .going hgoing hready htaken
          · exact .lost hlost hready (Or.inl htaken)
      | @take l t t' a' b hready' hget hans =>
          obtain ⟨rfl, hquiet⟩ := L.serverGet_going _ _ _ _ hlink hget
          exact .held hquiet rfl (hserve t a' (some (b, t')) hans) (by rw [htaken])
      | @stop l t a' hready' hget hend =>
          obtain ⟨rfl, hquiet⟩ := L.serverGet_going _ _ _ _ hlink hget
          exact .stopped hquiet rfl (hserve t a' none hend) (by rw [htaken])
      | put hholding _ =>
          rw [hready] at hholding
          cases hholding
  | held hlink hholding hR htaken =>
      cases hstep with
      | internal hint => exact .held (L.quiet_internal _ _ hlink hint) hholding hR htaken
      | take hready _ _ =>
          rw [hholding] at hready
          cases hready
      | stop hready _ _ =>
          rw [hholding] at hready
          cases hready
      | put hholding' hput =>
          rw [hholding] at hholding'
          cases hholding'
          exact .coming (L.serverPut_coming _ _ _ hlink hput) rfl hR htaken
  | coming hlink hready hR htaken =>
      cases hstep with
      | internal hint =>
          rcases L.coming_internal _ _ _ hlink hint with hcoming | hlost
          · exact .coming hcoming hready hR htaken
          · exact .lost hlost hready (Or.inr htaken)
      | take _ hget _ => exact absurd hlink ((L.serverGet_only _ _ _ hget).2.2 _)
      | stop _ hget _ => exact absurd hlink ((L.serverGet_only _ _ _ hget).2.2 _)
      | put hholding _ =>
          rw [hready] at hholding
          cases hholding
  | lost hlink hready htaken =>
      cases hstep with
      | internal hint => exact .lost (L.lost_internal _ _ hlink hint) hready htaken
      | take _ hget _ => exact absurd hlink (L.serverGet_only _ _ _ hget).2.1
      | stop _ hget _ => exact absurd hlink (L.serverGet_only _ _ _ hget).2.1
      | put hholding _ =>
          rw [hready] at hholding
          cases hholding
  | stopped hlink hstopped hR htaken =>
      cases hstep with
      | internal hint => exact .stopped (L.quiet_internal _ _ hlink hint) hstopped hR htaken
      | take hready _ _ =>
          rw [hstopped] at hready
          cases hready
      | stop hready _ _ =>
          rw [hstopped] at hready
          cases hready
      | put hholding _ =>
          rw [hstopped] at hholding
          cases hholding

theorem Waiting.env (hserve : Obeys serve R) (h : Waiting L R a s) (hstep : Env L serve s s') :
    Waiting L R a s' := by
  obtain ⟨⟨earlier, hput, hgot, hplace⟩, hanswers⟩ := h
  obtain ⟨hput', hgot'⟩ := hstep.logs
  refine ⟨⟨earlier, hput'.trans hput, by rw [hgot', hgot], hplace.env hserve hstep⟩, ?_⟩
  rw [hput', hgot']
  exact hanswers

theorem Idle.put (h : Idle L R s) (hstep : clientPut L s a s') : Waiting L R a s' := by
  obtain ⟨l, hlink, rfl⟩ := hstep
  obtain ⟨t, hready⟩ := h.server
  exact ⟨⟨s.put, rfl, h.got, .going (L.clientPut_going _ _ _ h.link hlink) hready h.taken⟩,
    h.answers.request a⟩

theorem Waiting.get (h : Waiting L R a s) (hstep : clientGet L s b s') :
    R a (some b) ∧ Idle L R s' := by
  obtain ⟨⟨earlier, hput, hgot, hplace⟩, hanswers⟩ := h
  obtain ⟨l, hlink, rfl⟩ := hstep
  obtain ⟨hquiet, hlost, hgoing⟩ := L.clientGet_only _ _ _ hlink
  cases hplace with
  | coming hcoming hready hR htaken =>
      obtain ⟨rfl, hquiet'⟩ := L.clientGet_coming _ _ _ _ hcoming hlink
      have hplace : s.put[s.got.length]? = some a := by
        rw [hput, hgot, List.getElem?_concat_length]
      refine ⟨hR, hquiet', ⟨_, hready⟩, htaken.trans hput.symm, ?_, hanswers.reply hplace hR⟩
      rw [hput, List.length_append, List.length_append, hgot]
      rfl
  | going h _ _ => exact absurd h (hgoing a)
  | held h _ _ _ => exact absurd h hquiet
  | lost h _ _ => exact absurd h hlost
  | stopped h _ _ _ => exact absurd h hquiet

/-! ## What is lost -/

-- no answer comes any more
def Hopeless (L : LossyLink α β σ) (s : Exchange α β σ τ) : Prop :=
  (L.Lost s.link ∧ ∃ t, s.server = .ready t) ∨ (L.Quiet s.link ∧ s.server = .stopped)

theorem Hopeless.env (h : Hopeless L s) (hstep : Env L serve s s') : Hopeless L s' := by
  rcases h with ⟨hlink, t, hready⟩ | ⟨hlink, hstopped⟩
  · cases hstep with
    | internal hint => exact Or.inl ⟨L.lost_internal _ _ hlink hint, t, hready⟩
    | take _ hget _ => exact absurd hlink (L.serverGet_only _ _ _ hget).2.1
    | stop _ hget _ => exact absurd hlink (L.serverGet_only _ _ _ hget).2.1
    | put hholding _ =>
        rw [hready] at hholding
        cases hholding
  · cases hstep with
    | internal hint => exact Or.inr ⟨L.quiet_internal _ _ hlink hint, hstopped⟩
    | take hready _ _ =>
        rw [hstopped] at hready
        cases hready
    | stop hready _ _ =>
        rw [hstopped] at hready
        cases hready
    | put hholding _ =>
        rw [hstopped] at hholding
        cases hholding

theorem Hopeless.no_get (h : Hopeless L s) : ¬ clientGet L s b s' := by
  rintro ⟨l, hlink, _⟩
  obtain ⟨hquiet, hlost, _⟩ := L.clientGet_only _ _ _ hlink
  rcases h with ⟨hlink, _⟩ | ⟨hlink, _⟩
  · exact hlost hlink
  · exact hquiet hlink

/-- A request that no answer comes to. -/
def Stranded (L : LossyLink α β σ) (s : Exchange α β σ τ) : Prop :=
  Hopeless L s ∧ s.got.length < s.put.length

theorem Stranded.env (h : Stranded L s) (hstep : Env L serve s s') : Stranded L s' := by
  obtain ⟨hput, hgot⟩ := hstep.logs
  exact ⟨h.1.env hstep, by rw [hput, hgot]; exact h.2⟩

theorem Stranded.not_idle (h : Stranded L s) : ¬ Idle L R s :=
  fun hidle => absurd hidle.got (Nat.ne_of_lt h.2)

/-! ## At every moment -/

def InStep (L : LossyLink α β σ) (R : α → Option β → Prop) (s : Exchange α β σ τ) : Prop :=
  Idle L R s ∨ ∃ a, Waiting L R a s

/-- The server takes every request once, the last one at most once. -/
theorem InStep.taken (h : InStep L R s) :
    s.taken <+: s.put ∧ s.put.length ≤ s.taken.length + 1 := by
  rcases h with hidle | ⟨a, ⟨earlier, hput, _, hplace⟩, _⟩
  · rw [hidle.taken]
    exact ⟨List.prefix_rfl, Nat.le_succ _⟩
  · have hboth : s.taken = earlier ∨ s.taken = earlier ++ [a] := by
      cases hplace with
      | going _ _ htaken => exact Or.inl htaken
      | held _ _ _ htaken => exact Or.inr htaken
      | coming _ _ _ htaken => exact Or.inr htaken
      | lost _ _ htaken => exact htaken
      | stopped _ _ _ htaken => exact Or.inr htaken
    rw [hput]
    rcases hboth with htaken | htaken
    · rw [htaken, List.length_append]
      exact ⟨List.prefix_append _ _, Nat.le_refl _⟩
    · rw [htaken]
      exact ⟨List.prefix_rfl, Nat.le_succ _⟩

theorem InStep.answers (h : InStep L R s) :
    Answers (fun a b => R a (some b)) s.put s.got ∧ s.put.length ≤ s.got.length + 1 := by
  rcases h with hidle | ⟨a, ⟨earlier, hput, hgot, _⟩, hanswers⟩
  · exact ⟨hidle.answers, by rw [hidle.got]; exact Nat.le_succ _⟩
  · refine ⟨hanswers, ?_⟩
    rw [hput, hgot, List.length_append]
    exact Nat.le_refl _

-- a client in step puts nothing while it waits
theorem Stranded.no_put (h : Stranded L s) (hstep : clientPut L s a s') : ¬ InStep L R s' := by
  intro hin
  obtain ⟨l, _, rfl⟩ := hstep
  have hle := hin.answers.2
  have hlt := h.2
  rw [List.length_append, List.length_singleton] at hle
  change s.put.length + 1 ≤ s.got.length + 1 at hle
  omega

end Steps

end Exchange

end SimConnect.Foundation
