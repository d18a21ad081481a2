import SimConnect.Foundation.Queue

/-!
# A client and a server over a pair of queues

A link is anything that behaves like a pair of queues between a client and a server, however many
steps of its own it takes.  Against a server that puts the answer to a request before it takes the
next one, a client that waits for each reply gets the answers to its own requests; and if every
step of the others brings the reply nearer, it does get them.
-/

namespace SimConnect.Foundation

variable {α β σ τ : Type}

/-! ## Links -/

namespace QueuePair

def clientPut (q : QueuePair α β) (a : α) : QueuePair α β :=
  { q with request := q.request.enqueue a }

def serverPut (q : QueuePair α β) (b : β) : QueuePair α β :=
  { q with reply := q.reply.enqueue b }

def serverGet (q : QueuePair α β) {a : α} {rest : List α} (h : q.request.contents = a :: rest) :
    QueuePair α β :=
  { q with request := q.request.dequeue h }

def clientGet (q : QueuePair α β) {b : β} {rest : List β} (h : q.reply.contents = b :: rest) :
    QueuePair α β :=
  { q with reply := q.reply.dequeue h }

end QueuePair

/-- The operations of a link and the pair of queues that a state of it stands for. -/
structure Link (α β σ : Type) where
  clientPut : σ → α → σ → Prop
  clientGet : σ → β → σ → Prop
  serverGet : σ → α → σ → Prop
  serverPut : σ → β → σ → Prop
  internal : σ → σ → Prop
  Refines : σ → QueuePair α β → Prop
  clientPut_refines : ∀ s q a s', Refines s q → clientPut s a s' → Refines s' (q.clientPut a)
  serverPut_refines : ∀ s q b s', Refines s q → serverPut s b s' → Refines s' (q.serverPut b)
  clientGet_refines : ∀ s q b s', Refines s q → clientGet s b s' →
    ∃ rest, ∃ h : q.reply.contents = b :: rest, Refines s' (q.clientGet h)
  serverGet_refines : ∀ s q a s', Refines s q → serverGet s a s' →
    ∃ rest, ∃ h : q.request.contents = a :: rest, Refines s' (q.serverGet h)
  internal_refines : ∀ s q s', Refines s q → internal s s' → Refines s' q

/-! ## The server -/

-- where a server stands: it may take a request, or it has an answer to put
inductive ServerAt (β τ : Type)
  | ready (t : τ)
  | holding (t : τ) (b : β)
  | stopped

namespace ServerAt

-- the answer that has not been put
def pending : ServerAt β τ → List β
  | .holding _ b => [b]
  | _ => []

end ServerAt

structure Served (σ β τ : Type) where
  link : σ
  server : ServerAt β τ

namespace Served

/-- The steps of the link and of a server that in state `t` takes `a` and then has an answer and a
new state, or stops. -/
inductive Env (L : Link α β σ) (serve : τ → α → Option (β × τ) → Prop) :
    Served σ β τ → Served σ β τ → Prop
  | internal {s s' : σ} {v : ServerAt β τ} : L.internal s s' → Env L serve ⟨s, v⟩ ⟨s', v⟩
  | take {s s' : σ} {t t' : τ} {a : α} {b : β} : L.serverGet s a s' → serve t a (some (b, t')) →
      Env L serve ⟨s, .ready t⟩ ⟨s', .holding t' b⟩
  | stop {s s' : σ} {t : τ} {a : α} : L.serverGet s a s' → serve t a none →
      Env L serve ⟨s, .ready t⟩ ⟨s', .stopped⟩
  | put {s s' : σ} {t : τ} {b : β} : L.serverPut s b s' →
      Env L serve ⟨s, .holding t b⟩ ⟨s', .ready t⟩

theorem Env.internals {L : Link α β σ} {serve : τ → α → Option (β × τ) → Prop} {s s' : σ}
    (h : Relation.ReflTransGen L.internal s s') (v : ServerAt β τ) :
    Relation.ReflTransGen (Env L serve) ⟨s, v⟩ ⟨s', v⟩ :=
  h.lift (Served.mk · v) fun _ _ hint => Env.internal hint

end Served

theorem Answers.of_append {R : α → β → Prop} {as : List α} {bs cs : List β}
    (h : Answers R as (bs ++ cs)) : Answers R as bs :=
  fun k b hb => h k b (getElem?_append_of_some hb)

/-- `R a` is what a server may do with the request `a`: answer it, or stop. -/
def Obeys (serve : τ → α → Option (β × τ) → Prop) (R : α → Option β → Prop) : Prop :=
  ∀ t a o, serve t a o → R a (o.map Prod.fst)

namespace Served

/-- The server has answered in order so far, what it holds answers the request it took last, and it
has stopped only on a request that allows it. -/
structure Inv (L : Link α β σ) (R : α → Option β → Prop) (s : Served σ β τ) (q : QueuePair α β) :
    Prop where
  refines : L.Refines s.link q
  answers : Answers (fun a b => R a (some b)) q.request.got (q.reply.put ++ s.server.pending)
  even : s.server ≠ .stopped →
    q.request.got.length = q.reply.put.length + s.server.pending.length
  stopped : s.server = .stopped → ∃ a ∈ q.request.got, R a none

variable {L : Link α β σ} {R : α → Option β → Prop} {serve : τ → α → Option (β × τ) → Prop}
  {s s' : Served σ β τ} {q : QueuePair α β}

/-- A step of the others keeps what the client has put and what it has got. -/
theorem Inv.env (hserve : Obeys serve R) (h : Inv L R s q) (hstep : Env L serve s s') :
    ∃ q', Inv L R s' q' ∧ q'.request.put = q.request.put ∧ q'.reply.got = q.reply.got := by
  cases hstep with
  | internal hint =>
      have href := L.internal_refines _ _ _ h.refines hint
      exact ⟨q, ⟨href, h.answers, h.even, h.stopped⟩, rfl, rfl⟩
  | @take l l' t t' a b hget hans =>
      obtain ⟨rest, hcontents, href⟩ := L.serverGet_refines _ _ _ _ h.refines hget
      have heven : q.request.got.length = q.reply.put.length := h.even nofun
      have hold := h.answers.of_append
      -- the answer stands at the place of the request just taken
      have hplace : (q.request.got ++ [a])[q.reply.put.length]? = some a := by
        rw [← heven, List.getElem?_concat_length]
      have hnew := (hold.request a).reply hplace (hserve t a (some (b, t')) hans)
      refine ⟨_, ⟨href, hnew, fun _ => ?_, nofun⟩, rfl, rfl⟩
      change (q.request.got ++ [a]).length = _
      rw [List.length_append, heven]
      rfl
  | @stop l l' t a hget hend =>
      obtain ⟨rest, hcontents, href⟩ := L.serverGet_refines _ _ _ _ h.refines hget
      have hlast : a ∈ q.request.got ++ [a] := List.mem_append_right _ (List.mem_singleton_self a)
      exact ⟨_, ⟨href, h.answers.request a, fun hne => absurd rfl hne,
        fun _ => ⟨a, hlast, hserve t a none hend⟩⟩, rfl, rfl⟩
  | @put l l' t b hput =>
      have href := L.serverPut_refines _ _ _ _ h.refines hput
      refine ⟨_, ⟨href, ?_, fun _ => ?_, nofun⟩, rfl, rfl⟩
      · change Answers _ q.request.got ((q.reply.put ++ [b]) ++ [])
        rw [List.append_nil]
        exact h.answers
      · change q.request.got.length = (q.reply.put ++ [b]).length + 0
        rw [List.length_append]
        exact h.even nofun

-- a server that has stopped has stopped on one of the requests
theorem Inv.stopped_put (h : Inv L R s q) (hstop : s.server = .stopped) :
    ∃ a ∈ q.request.put, R a none := by
  obtain ⟨a, hmem, hR⟩ := h.stopped hstop
  refine ⟨a, ?_, hR⟩
  rw [q.request.conserved]
  exact List.mem_append_left _ hmem

/-! ## The client -/

/-- The client has put `as` and got `bs`. -/
def History (L : Link α β σ) (R : α → Option β → Prop) (as : List α) (bs : List β)
    (s : Served σ β τ) : Prop :=
  ∃ q, Inv L R s q ∧ q.request.put = as ∧ q.reply.got = bs

section History

variable {as : List α} {bs : List β}

theorem History.env (hserve : Obeys serve R) (h : History L R as bs s) (hstep : Env L serve s s') :
    History L R as bs s' := by
  obtain ⟨q, hq, has, hbs⟩ := h
  obtain ⟨q', hq', hput, hgot⟩ := hq.env hserve hstep
  exact ⟨q', hq', hput.trans has, hgot.trans hbs⟩

theorem History.put {a : α} {l : σ} (h : History L R as bs s) (hstep : L.clientPut s.link a l) :
    History L R (as ++ [a]) bs { s with link := l } := by
  obtain ⟨q, hq, rfl, rfl⟩ := h
  have href := L.clientPut_refines _ _ _ _ hq.refines hstep
  exact ⟨q.clientPut a, ⟨href, hq.answers, hq.even, hq.stopped⟩, rfl, rfl⟩

-- what the client gets answers the request at its place
theorem History.get {b : β} {l : σ} (h : History L R as bs s) (hstep : L.clientGet s.link b l) :
    (∃ a, as[bs.length]? = some a ∧ R a (some b)) ∧
      History L R as (bs ++ [b]) { s with link := l } := by
  obtain ⟨q, hq, rfl, rfl⟩ := h
  obtain ⟨rest, hcontents, href⟩ := L.clientGet_refines _ _ _ _ hq.refines hstep
  obtain ⟨a, _, hput, hR⟩ := QueuePair.next_reply hq.answers.of_append hcontents
  exact ⟨⟨a, hput, hR⟩, q.clientGet hcontents, ⟨href, hq.answers, hq.even, hq.stopped⟩, rfl, rfl⟩

theorem History.stopped (h : History L R as bs s) (hstop : s.server = .stopped) :
    ∃ a ∈ as, R a none := by
  obtain ⟨q, hq, rfl, _⟩ := h
  exact hq.stopped_put hstop

end History

-- nothing is on the way
def Idle (L : Link α β σ) (R : α → Option β → Prop) (s : Served σ β τ) : Prop :=
  ∃ as bs, History L R as bs s ∧ as.length = bs.length

-- the one thing on the way is `a` or its answer
def Waiting (L : Link α β σ) (R : α → Option β → Prop) (a : α) (s : Served σ β τ) : Prop :=
  ∃ as bs, History L R as bs s ∧ as.length = bs.length + 1 ∧ as[bs.length]? = some a

theorem Idle.env (hserve : Obeys serve R) (h : Idle L R s) (hstep : Env L serve s s') :
    Idle L R s' := by
  obtain ⟨as, bs, hist, hlen⟩ := h
  exact ⟨as, bs, hist.env hserve hstep, hlen⟩

theorem Waiting.env (hserve : Obeys serve R) {a : α} (h : Waiting L R a s)
    (hstep : Env L serve s s') : Waiting L R a s' := by
  obtain ⟨as, bs, hist, hlen, ha⟩ := h
  exact ⟨as, bs, hist.env hserve hstep, hlen, ha⟩

theorem Idle.put {a : α} {l : σ} (h : Idle L R s) (hstep : L.clientPut s.link a l) :
    Waiting L R a { s with link := l } := by
  obtain ⟨as, bs, hist, hlen⟩ := h
  refine ⟨as ++ [a], bs, hist.put hstep, ?_, ?_⟩
  · rw [List.length_append, hlen]
    rfl
  · rw [← hlen, List.getElem?_concat_length]

theorem Waiting.get {a : α} {b : β} {l : σ} (h : Waiting L R a s) (hstep : L.clientGet s.link b l) :
    R a (some b) ∧ Idle L R { s with link := l } := by
  obtain ⟨as, bs, hist, hlen, ha⟩ := h
  obtain ⟨⟨a', hput, hR⟩, hist'⟩ := hist.get hstep
  have ha' : a' = a := Option.some.inj (hput.symm.trans ha)
  rw [ha'] at hR
  refine ⟨hR, as, bs ++ [b], hist', ?_⟩
  rw [hlen, List.length_append]
  rfl

end Served

/-! ## Progress -/

/-- A rank that the link's own steps and the server's gets lower, where a put adds at most `cost`.
A link that is not `down` is stuck only with nothing on the way. -/
structure Link.Ranked (L : Link α β σ) where
  rank : σ → ℕ
  cost : ℕ
  down : σ → Prop
  internal_rank : ∀ s s', L.internal s s' → rank s' < rank s
  serverGet_rank : ∀ s a s', L.serverGet s a s' → rank s' + cost + 1 < rank s
  serverPut_rank : ∀ s b s', L.serverPut s b s' → rank s' ≤ rank s + cost
  serverPut_enabled : ∀ s b, ∃ s', L.serverPut s b s'
  enabled : ∀ s q, L.Refines s q → down s ∨ (∃ b s', L.clientGet s b s') ∨
    (∃ s', L.internal s s') ∨ (∃ a s', L.serverGet s a s') ∨
    (q.request.contents = [] ∧ q.reply.contents = [])

namespace Link.Ranked

variable {L : Link α β σ} (K : L.Ranked) {R : α → Option β → Prop}
  {serve : τ → α → Option (β × τ) → Prop}

def total (s : Served σ β τ) : ℕ := K.rank s.link + s.server.pending.length * (K.cost + 1)

-- what ends the wait of a client
def Ends (s : Served σ β τ) : Prop :=
  (∃ b l, L.clientGet s.link b l) ∨ s.server = .stopped ∨ K.down s.link

theorem total_env {s s' : Served σ β τ} (hstep : Served.Env L serve s s') :
    K.total s' < K.total s := by
  cases hstep with
  | internal hint =>
      have hrank := K.internal_rank _ _ hint
      simp only [total]
      omega
  | take hget _ =>
      have hrank := K.serverGet_rank _ _ _ hget
      simp only [total, ServerAt.pending, List.length_singleton, List.length_nil]
      omega
  | stop hget _ =>
      have hrank := K.serverGet_rank _ _ _ hget
      simp only [total, ServerAt.pending, List.length_nil]
      omega
  | put hput =>
      have hrank := K.serverPut_rank _ _ _ hput
      simp only [total, ServerAt.pending, List.length_singleton, List.length_nil]
      omega

theorem ends_or_step (htotal : ∀ t a, ∃ o, serve t a o) {a : α} {s : Served σ β τ}
    (h : s.Waiting L R a) : K.Ends s ∨ ∃ s', Served.Env L serve s s' := by
  obtain ⟨as, bs, ⟨q, hq, rfl, rfl⟩, hlen, _⟩ := h
  obtain ⟨l, v⟩ := s
  cases v with
  | stopped => exact Or.inl (Or.inr (Or.inl rfl))
  | holding t b =>
      obtain ⟨l', hput⟩ := K.serverPut_enabled l b
      exact Or.inr ⟨_, .put hput⟩
  | ready t =>
      rcases K.enabled l q hq.refines with hdown | hget | ⟨l', hint⟩ | ⟨a, l', hget⟩ |
        ⟨hrequest, hreply⟩
      · exact Or.inl (Or.inr (Or.inr hdown))
      · exact Or.inl (Or.inl hget)
      · exact Or.inr ⟨_, .internal hint⟩
      · obtain ⟨o, hserve⟩ := htotal t a
        cases o with
        | none => exact Or.inr ⟨_, .stop hget hserve⟩
        | some x => exact Or.inr ⟨_, .take hget hserve⟩
      · -- with both ways empty and the server ready everything has been answered
        have heven : q.request.got.length = q.reply.put.length := hq.even nofun
        have hput := q.request.put_length
        have hgot := q.reply.put_length
        rw [hrequest, List.length_nil] at hput
        rw [hreply, List.length_nil] at hgot
        omega

/-- A client that waits comes to the end of its wait, whatever order the others take their steps
in. -/
theorem within (hserve : Obeys serve R)
    (htotal : ∀ t a, ∃ o, serve t a o) {a : α} {s : Served σ β τ} (h : s.Waiting L R a) :
    Within (Served.Env L serve) (fun s => s.Waiting L R a ∧ K.Ends s) (K.total s) s :=
  Within.of_rank (I := fun s => s.Waiting L R a) (fun _ _ hs hstep => hs.env hserve hstep)
    (fun _ _ _ hstep => K.total_env hstep) (fun _ hs => K.ends_or_step htotal hs) h

end Link.Ranked

end SimConnect.Foundation
