import Mathlib.Data.List.Basic
import Mathlib.Logic.Function.Basic

/-!
# One message over channels that come and go

Senders take messages from a source into one buffer that they share and put them out piece by piece,
each on the channel it is bound to; a receiver takes whole messages off the channels it hears.
Channels are made, dropped and bound to other senders at any time, also in the middle of a message.
While there is only one message on the way it comes out as it went in, or nothing comes out any
more.
-/

namespace SimConnect.Foundation

variable {α β : Type}

/-! ## The steps -/

structure Encoding (α β : Type) where
  size : ℕ
  size_pos : 0 < size
  bytes : α → List β
  length_bytes : ∀ a, (bytes a).length = size
  bytes_inj : Function.Injective bytes

theorem Encoding.ne_nil_of_take {E : Encoding α β} {a : α} {bs : List β}
    (h : E.bytes a = bs.take E.size) : bs ≠ [] := by
  intro hnil
  have hlen := E.length_bytes a
  rw [h, hnil, List.take_nil] at hlen
  exact absurd hlen (Nat.ne_of_lt E.size_pos)

/-- `out i` is how much of the buffer sender `i` has put out, while some of it is left, and `via i`
the channel it is bound to.  A channel is `heard` if it is received from, now or later, and `fresh`
as long as no sender has been bound to it. -/
@[ext]
structure Passage (α β : Type) where
  source : List α
  buffer : α
  out : ℕ → Option ℕ
  via : ℕ → Option ℕ
  wires : ℕ → List β
  heard : ℕ → Prop
  fresh : ℕ → Prop
  inHand : Option α
  sink : List α

namespace Passage

-- sender `i`, with `n` out, puts up to `k + 1` more on channel `c`
def sendOn (E : Encoding α β) (P : Passage α β) (i n c k : ℕ) : Passage α β :=
  { P with
    wires := Function.update P.wires c (P.wires c ++ ((E.bytes P.buffer).drop n).take (k + 1))
    out := Function.update P.out i
      (if n + (k + 1) < E.size then some (n + (k + 1)) else none) }

/-- A sender that stops sending, or is bound to another channel, does so by `control`. -/
inductive Step (E : Encoding α β) (P : Passage α β) : Passage α β → Prop
  | control {out via : ℕ → Option ℕ} {heard fresh : ℕ → Prop} :
      (∀ i n, out i = some n → P.out i = some n) →
      (∀ i n c, out i = some n → via i = some c → P.via i = some c ∨ P.fresh c) →
      (∀ c, heard c → P.heard c ∨ P.fresh c) → (∀ c, fresh c → P.fresh c) →
      Step E P { P with out, via, heard, fresh }
  | dequeue {i : ℕ} {a : α} {rest : List α} : P.source = a :: rest →
      Step E P { P with
        source := rest
        buffer := a
        out := Function.update P.out i (some 0) }
  | send {i n c : ℕ} (k : ℕ) : P.out i = some n → n < E.size → P.via i = some c → ¬ P.fresh c →
      Step E P (P.sendOn E i n c k)
  | recvWhole {c : ℕ} {a : α} : P.heard c → P.inHand = none →
      E.bytes a = (P.wires c).take E.size →
      Step E P { P with
        wires := Function.update P.wires c ((P.wires c).drop E.size)
        inHand := some a }
  | recvShort {c m : ℕ} {heard : ℕ → Prop} : (P.wires c).take m ≠ [] →
      (∀ c', heard c' → P.heard c' ∧ c' ≠ c) →
      Step E P { P with
        wires := Function.update P.wires c ((P.wires c).drop m)
        heard }
  | handOn {a : α} : P.inHand = some a →
      Step E P { P with inHand := none, sink := P.sink ++ [a] }

theorem Step.refl (E : Encoding α β) (P : Passage α β) : P.Step E P :=
  .control (fun _ _ h => h) (fun _ _ _ _ h => Or.inl h) (fun _ h => Or.inl h) fun _ h => h

section SendOn

variable (E : Encoding α β) (P : Passage α β) (i n c k : ℕ)

theorem sendOn_wire :
    (P.sendOn E i n c k).wires c = P.wires c ++ ((E.bytes P.buffer).drop n).take (k + 1) :=
  Function.update_self _ _ _

theorem sendOn_wire_of_ne {c' : ℕ} (h : c' ≠ c) : (P.sendOn E i n c k).wires c' = P.wires c' :=
  Function.update_of_ne h _ _

theorem sendOn_out : (P.sendOn E i n c k).out i =
    if n + (k + 1) < E.size then some (n + (k + 1)) else none :=
  Function.update_self _ _ _

theorem sendOn_out_of_ne {j : ℕ} (h : j ≠ i) : (P.sendOn E i n c k).out j = P.out j :=
  Function.update_of_ne h _ _

theorem sendOn_out_some {m : ℕ} (h : (P.sendOn E i n c k).out i = some m) :
    m = n + (k + 1) ∧ n + (k + 1) < E.size := by
  rw [sendOn_out] at h
  split at h
  · next hlt => exact ⟨(Option.some.inj h).symm, hlt⟩
  · cases h

theorem sendOn_length : ((P.sendOn E i n c k).wires c).length =
    (P.wires c).length + min (k + 1) (E.size - n) := by
  rw [sendOn_wire, List.length_append, List.length_take, List.length_drop, E.length_bytes]

end SendOn

/-! ## Where the message is -/

structure Ends (P : Passage α β) (source : List α) (inHand : Option α) (sink : List α) : Prop where
  source : P.source = source
  inHand : P.inHand = inHand
  sink : P.sink = sink

-- nothing is between the source and the receiver
structure Still (P : Passage α β) : Prop where
  out : ∀ i, P.out i = none
  wires : ∀ c, P.wires c = []

def Quiet (P : Passage α β) : Prop := P.Still ∧ P.Ends [] none []

/-- The one message on the way is `a`, and it can still come out. -/
inductive Going (E : Encoding α β) (a : α) (P : Passage α β) : Prop
  | inSource : P.Still → P.Ends [a] none [] → Going E a P
  | taken {i : ℕ} : P.Ends [] none [] → P.buffer = a → P.out i = some 0 →
      (∀ j, j ≠ i → P.out j = none) → (∀ c, P.wires c = []) → Going E a P
  | sending {i n c : ℕ} : P.Ends [] none [] → P.buffer = a → P.out i = some n → 0 < n →
      n < E.size → (∀ j, j ≠ i → P.out j = none) → P.via i = some c →
      P.wires c = (E.bytes a).take n → P.heard c → ¬ P.fresh c →
      (∀ c', c' ≠ c → P.wires c' = []) → Going E a P
  | sent {c : ℕ} : P.Ends [] none [] → (∀ i, P.out i = none) → P.wires c = E.bytes a →
      P.heard c → ¬ P.fresh c → (∀ c', c' ≠ c → P.wires c' = []) → Going E a P
  | inHand : P.Still → P.Ends [] (some a) [] → Going E a P
  | inSink : P.Still → P.Ends [] none [a] → Going E a P

/-- Some of the message is gone: what is left cannot make a whole one on any channel. -/
structure Lost (E : Encoding α β) (P : Passage α β) : Prop where
  ends : P.Ends [] none []
  one : ∀ i j n m, P.out i = some n → P.out j = some m → i = j
  begun : ∀ i n, P.out i = some n → 0 < n ∧ n < E.size
  behind : ∀ i n c, P.out i = some n → P.via i = some c → P.heard c → (P.wires c).length < n
  short : ∀ c, P.heard c → (P.wires c).length < E.size
  fresh : ∀ c, P.fresh c → P.wires c = []

variable {E : Encoding α β} {P P' : Passage α β} {a : α}

/-! ## Nothing between the source and the receiver -/

theorem no_sender (h : ∀ i, P.out i = none) {i n : ℕ} : P.out i ≠ some n := by
  rw [h i]
  nofun

theorem Still.lost (h : P.Still) (hends : P.Ends [] none []) : P.Lost E where
  ends := hends
  one := fun i j n m hi => absurd hi (no_sender h.out)
  begun := fun i n hi => absurd hi (no_sender h.out)
  behind := fun i n c hi => absurd hi (no_sender h.out)
  short := fun c _ => by
    rw [h.wires c]
    exact E.size_pos
  fresh := fun c _ => h.wires c

theorem out_none_of_control {out : ℕ → Option ℕ} {i : ℕ}
    (hout : ∀ i n, out i = some n → P.out i = some n) (hi : P.out i = none) : out i = none := by
  cases ho : out i with
  | none => rfl
  | some n =>
      have hsome := hout i n ho
      rw [hi] at hsome
      cases hsome

-- what a step can do there
theorem Still.step (h : P.Still) (hstep : P.Step E P') :
    (P'.Still ∧ P'.Ends P.source P.inHand P.sink) ∨
      (∃ i a rest, P.source = a :: rest ∧ P' = { P with
        source := rest
        buffer := a
        out := Function.update P.out i (some 0) }) ∨
      ∃ a, P.inHand = some a ∧ P'.Still ∧ P'.Ends P.source none (P.sink ++ [a]) := by
  cases hstep with
  | control hout hvia hheard hfresh =>
      exact Or.inl ⟨⟨fun i => out_none_of_control hout (h.out i), h.wires⟩, rfl, rfl, rfl⟩
  | @dequeue i a rest hsource => exact Or.inr (Or.inl ⟨i, a, rest, hsource, rfl⟩)
  | @send i n c k hout _ _ _ =>
      rw [h.out i] at hout
      cases hout
  | @recvWhole c a _ _ hbytes =>
      exact absurd (h.wires c) (Encoding.ne_nil_of_take hbytes)
  | @recvShort c m heard hgot _ =>
      rw [h.wires c, List.take_nil] at hgot
      exact absurd rfl hgot
  | @handOn a hhand => exact Or.inr (Or.inr ⟨a, hhand, ⟨h.out, h.wires⟩, rfl, rfl, rfl⟩)

theorem Quiet.step (h : P.Quiet) (hstep : P.Step E P') : P'.Quiet := by
  obtain ⟨hstill, hends⟩ := h
  rcases hstill.step hstep with ⟨hstill', hends'⟩ | ⟨i, a, rest, hsource, _⟩ | ⟨a, hhand, _⟩
  · rw [hends.source, hends.inHand, hends.sink] at hends'
    exact ⟨hstill', hends'⟩
  · rw [hends.source] at hsource
    cases hsource
  · rw [hends.inHand] at hhand
    cases hhand

theorem Quiet.put (h : P.Quiet) (a : α) : { P with source := P.source ++ [a] }.Going E a := by
  obtain ⟨hstill, hends⟩ := h
  refine .inSource ⟨hstill.out, hstill.wires⟩ ⟨?_, hends.inHand, hends.sink⟩
  change P.source ++ [a] = [a]
  rw [hends.source, List.nil_append]

/-! ## A message that is gone -/

-- the rest of a message of which some is gone is no whole message
theorem Lost.sendOn (h : P.Lost E) {i n c : ℕ} (k : ℕ) (hout : P.out i = some n)
    (hvia : P.via i = some c) (hfresh : ¬ P.fresh c) : (P.sendOn E i n c k).Lost E := by
  have hsole : ∀ j m, (P.sendOn E i n c k).out j = some m → j = i := by
    intro j m hj
    by_contra hji
    rw [sendOn_out_of_ne E P i n c k hji] at hj
    exact hji (h.one j i m n hj hout)
  -- the channel stays behind its sender
  have hlen := sendOn_length E P i n c k
  have hbehind : P.heard c →
      ((P.sendOn E i n c k).wires c).length < min E.size (n + (k + 1)) := by
    intro hheard
    have hold := h.behind i n c hout hvia hheard
    have hbegun := h.begun i n hout
    omega
  refine ⟨⟨h.ends.source, h.ends.inHand, h.ends.sink⟩,
    fun j j' m m' hj hj' => (hsole j m hj).trans (hsole j' m' hj').symm,
    fun j m hj => ?_, fun j m c' hj hc' hheard => ?_, fun c' hheard => ?_, fun c' hc' => ?_⟩
  · obtain rfl := hsole j m hj
    obtain ⟨rfl, hlt⟩ := sendOn_out_some E P j n c k hj
    exact ⟨Nat.succ_pos _, hlt⟩
  · obtain rfl := hsole j m hj
    obtain ⟨rfl, hlt⟩ := sendOn_out_some E P j n c k hj
    obtain rfl : c' = c := Option.some.inj (hc'.symm.trans hvia)
    have hold := hbehind hheard
    omega
  · by_cases hcc : c' = c
    · subst hcc
      have hold := hbehind hheard
      omega
    · rw [sendOn_wire_of_ne E P i n c k hcc]
      exact h.short c' hheard
  · have hcc : c' ≠ c := fun heq => hfresh (heq ▸ hc')
    rw [sendOn_wire_of_ne E P i n c k hcc]
    exact h.fresh c' hc'

theorem Lost.step (h : P.Lost E) (hstep : P.Step E P') : P'.Lost E := by
  cases hstep with
  | @control out via heard fresh hout hvia hheard hfresh =>
      refine ⟨⟨h.ends.source, h.ends.inHand, h.ends.sink⟩,
        fun i j n m hi hj => h.one i j n m (hout i n hi) (hout j m hj),
        fun i n hi => h.begun i n (hout i n hi), fun i n c hi hc hheardc => ?_,
        fun c hheardc => ?_, fun c hc => h.fresh c (hfresh c hc)⟩
      · -- a channel that nothing has been put on is behind every sender
        have hempty : P.fresh c → (P.wires c).length < n := by
          intro hc
          rw [h.fresh c hc]
          exact (h.begun i n (hout i n hi)).1
        rcases hvia i n c hi hc with hold | hnew
        · rcases hheard c hheardc with hheardc | hnew
          · exact h.behind i n c (hout i n hi) hold hheardc
          · exact hempty hnew
        · exact hempty hnew
      · rcases hheard c hheardc with hold | hnew
        · exact h.short c hold
        · change (P.wires c).length < E.size
          rw [h.fresh c hnew]
          exact E.size_pos
  | dequeue hsource =>
      rw [h.ends.source] at hsource
      cases hsource
  | send k hout _ hvia hfresh => exact h.sendOn k hout hvia hfresh
  | @recvWhole c b hheard _ hbytes =>
      have hlen := congrArg List.length hbytes
      rw [E.length_bytes, List.length_take] at hlen
      have hshort := h.short c hheard
      omega
  | @recvShort c m heard _ hheard =>
      -- what is left on the channel is no more than before
      have hle : ∀ c', (Function.update P.wires c ((P.wires c).drop m) c').length ≤
          (P.wires c').length := by
        intro c'
        by_cases hcc : c' = c
        · rw [hcc, Function.update_self, List.length_drop]
          exact Nat.sub_le _ _
        · exact Nat.le_of_eq (congrArg List.length (Function.update_of_ne hcc _ _))
      refine ⟨⟨h.ends.source, h.ends.inHand, h.ends.sink⟩, h.one, h.begun,
        fun i n c' hi hc' hheard' => ?_, fun c' hheard' => ?_, fun c' hc' => ?_⟩
      · exact Nat.lt_of_le_of_lt (hle c') (h.behind i n c' hi hc' (hheard c' hheard').1)
      · exact Nat.lt_of_le_of_lt (hle c') (h.short c' (hheard c' hheard').1)
      · have hnone := hle c'
        rw [h.fresh c' hc', List.length_nil] at hnone
        exact List.length_eq_zero_iff.mp (Nat.le_zero.mp hnone)
  | handOn hhand =>
      rw [h.ends.inHand] at hhand
      cases hhand

/-! ## The message on the way -/

-- all that is left lies on one channel, on which it cannot become a whole message
theorem lost_of_channel {c : ℕ} (hends : P.Ends [] none []) (hfresh : ¬ P.fresh c)
    (hothers : ∀ c', c' ≠ c → P.wires c' = []) (hshort : P.heard c → (P.wires c).length < E.size)
    (hone : ∀ i j n m, P.out i = some n → P.out j = some m → i = j)
    (hsender : ∀ i n, P.out i = some n → 0 < n ∧ n < E.size ∧
      (P.via i = some c → P.heard c → (P.wires c).length < n)) : P.Lost E where
  ends := hends
  one := hone
  begun := fun i n hi => ⟨(hsender i n hi).1, (hsender i n hi).2.1⟩
  behind := by
    intro i n c' hi hvia hheard
    by_cases hcc : c' = c
    · rw [hcc] at hvia hheard ⊢
      exact (hsender i n hi).2.2 hvia hheard
    · rw [hothers c' hcc]
      exact (hsender i n hi).1
  short := by
    intro c' hheard
    by_cases hcc : c' = c
    · rw [hcc] at hheard ⊢
      exact hshort hheard
    · rw [hothers c' hcc]
      exact E.size_pos
  fresh := fun c' hc' => hothers c' fun hcc => hfresh (hcc ▸ hc')

theorem lost_of_silent {c : ℕ} (hends : P.Ends [] none []) (hout : ∀ i, P.out i = none)
    (hfresh : ¬ P.fresh c) (hothers : ∀ c', c' ≠ c → P.wires c' = []) (hheard : ¬ P.heard c) :
    P.Lost E :=
  lost_of_channel hends hfresh hothers (absurd · hheard)
    (fun _ _ _ _ hi => absurd hi (no_sender hout)) fun _ _ hi => absurd hi (no_sender hout)

theorem sender_eq {i j n : ℕ} (hone : ∀ j, j ≠ i → P.out j = none) (hj : P.out j = some n) :
    j = i := by
  by_contra hji
  rw [hone j hji] at hj
  cases hj

-- a sender of the whole buffer has put out the first `n` bytes of it on `c`
theorem sending_or_sent {i n c : ℕ} (hends : P.Ends [] none []) (hbuffer : P.buffer = a)
    (hholder : P.out i = if n < E.size then some n else none) (hpos : 0 < n)
    (hone : ∀ j, j ≠ i → P.out j = none) (hvia : P.via i = some c)
    (hwire : P.wires c = (E.bytes a).take n) (hheard : P.heard c) (hfresh : ¬ P.fresh c)
    (hothers : ∀ c', c' ≠ c → P.wires c' = []) : P.Going E a := by
  by_cases hlt : n < E.size
  · rw [if_pos hlt] at hholder
    exact .sending hends hbuffer hholder hpos hlt hone hvia hwire hheard hfresh hothers
  · rw [if_neg hlt] at hholder
    rw [List.take_of_length_le (by rw [E.length_bytes]; exact Nat.le_of_not_lt hlt)] at hwire
    refine .sent hends (fun j => ?_) hwire hheard hfresh hothers
    by_cases hji : j = i
    · rw [hji, hholder]
    · exact hone j hji

-- the only sender goes on with a message of which `n` bytes are out, all of them on its channel
theorem going_sendOn {i n c k : ℕ} (hends : P.Ends [] none []) (hbuffer : P.buffer = a)
    (hholder : P.out i = some n) (hone : ∀ j, j ≠ i → P.out j = none) (hfresh : ¬ P.fresh c)
    (hvia : P.via i = some c) (hwire : P.wires c = (E.bytes a).take n)
    (hothers : ∀ c', c' ≠ c → P.wires c' = []) :
    (P.sendOn E i n c k).Going E a ∨ (P.sendOn E i n c k).Lost E := by
  have hone' : ∀ j, j ≠ i → (P.sendOn E i n c k).out j = none :=
    fun j hj => (sendOn_out_of_ne E P i n c k hj).trans (hone j hj)
  have hothers' : ∀ c', c' ≠ c → (P.sendOn E i n c k).wires c' = [] :=
    fun c' hc' => (sendOn_wire_of_ne E P i n c k hc').trans (hothers c' hc')
  by_cases hheard : P.heard c
  · refine Or.inl (sending_or_sent ⟨hends.source, hends.inHand, hends.sink⟩ hbuffer
      (sendOn_out E P i n c k) (Nat.succ_pos _) hone' hvia ?_ hheard hfresh hothers')
    rw [sendOn_wire, hwire, hbuffer, ← List.take_add]
  · -- nobody will receive from this channel
    refine Or.inr (lost_of_channel ⟨hends.source, hends.inHand, hends.sink⟩ hfresh hothers'
      (absurd · hheard) (fun j j' m m' hj hj' => (sender_eq hone' hj).trans
        (sender_eq hone' hj').symm) fun j m hj => ?_)
    obtain rfl := sender_eq hone' hj
    obtain ⟨rfl, hlt⟩ := sendOn_out_some E P j n c k hj
    exact ⟨Nat.succ_pos _, hlt, fun _ hc => absurd hc hheard⟩

theorem going_step_taken {i : ℕ} (hends : P.Ends [] none []) (hbuffer : P.buffer = a)
    (hholder : P.out i = some 0) (hone : ∀ j, j ≠ i → P.out j = none)
    (hwires : ∀ c, P.wires c = []) (hstep : P.Step E P') : P'.Going E a ∨ P'.Lost E := by
  cases hstep with
  | @control out via heard fresh hout _ _ _ =>
      have hone' : ∀ j, j ≠ i → out j = none :=
        fun j hj => out_none_of_control hout (hone j hj)
      cases ho : out i with
      | none =>
          -- the sender has dropped the message
          refine Or.inr (Still.lost ⟨fun j => ?_, hwires⟩
            ⟨hends.source, hends.inHand, hends.sink⟩)
          by_cases hji : j = i
          · rw [hji]
            exact ho
          · exact hone' j hji
      | some n =>
          have hn : n = 0 := Option.some.inj ((hout i n ho).symm.trans hholder)
          rw [hn] at ho
          exact Or.inl (.taken ⟨hends.source, hends.inHand, hends.sink⟩ hbuffer ho hone' hwires)
  | dequeue hsource =>
      rw [hends.source] at hsource
      cases hsource
  | @send j n c k hj hn hvia hfresh =>
      obtain rfl := sender_eq hone hj
      obtain rfl : n = 0 := Option.some.inj (hj.symm.trans hholder)
      exact going_sendOn hends hbuffer hj hone hfresh hvia (hwires c) fun c' _ => hwires c'
  | @recvWhole c b _ _ hbytes => exact absurd (hwires c) (Encoding.ne_nil_of_take hbytes)
  | @recvShort c m heard hgot _ =>
      rw [hwires c, List.take_nil] at hgot
      exact absurd rfl hgot
  | handOn hhand =>
      rw [hends.inHand] at hhand
      cases hhand

theorem going_step_sending {i n c : ℕ} (hends : P.Ends [] none []) (hbuffer : P.buffer = a)
    (hholder : P.out i = some n) (hpos : 0 < n) (hlt : n < E.size)
    (hone : ∀ j, j ≠ i → P.out j = none) (hvia : P.via i = some c)
    (hwire : P.wires c = (E.bytes a).take n) (hheard : P.heard c) (hfresh : ¬ P.fresh c)
    (hothers : ∀ c', c' ≠ c → P.wires c' = []) (hstep : P.Step E P') :
    P'.Going E a ∨ P'.Lost E := by
  have hlen : (P.wires c).length = n := by
    rw [hwire, List.length_take, E.length_bytes, Nat.min_eq_left (Nat.le_of_lt hlt)]
  cases hstep with
  | @control out via heard fresh hout hvia' hheard' hfresh' =>
      have hone' : ∀ j, j ≠ i → out j = none :=
        fun j hj => out_none_of_control hout (hone j hj)
      by_cases hgood : out i = some n ∧ via i = some c ∧ heard c
      · exact Or.inl (.sending ⟨hends.source, hends.inHand, hends.sink⟩ hbuffer hgood.1 hpos hlt
          hone' hgood.2.1 hwire hgood.2.2 (fun hc => hfresh (hfresh' c hc)) hothers)
      · -- the sender has stopped, or its channel is no longer the one it began on
        refine Or.inr (lost_of_channel (c := c) ⟨hends.source, hends.inHand, hends.sink⟩
          (fun hc => hfresh (hfresh' c hc)) hothers
          (fun _ => Nat.lt_of_le_of_lt (Nat.le_of_eq hlen) hlt)
          (fun j j' m m' hj hj' => (sender_eq hone' hj).trans (sender_eq hone' hj').symm)
          fun j m hj => ?_)
        obtain rfl := sender_eq hone' hj
        obtain rfl : m = n := Option.some.inj ((hout j m hj).symm.trans hholder)
        exact ⟨hpos, hlt, fun hc hheardc => absurd ⟨hj, hc, hheardc⟩ hgood⟩
  | dequeue hsource =>
      rw [hends.source] at hsource
      cases hsource
  | @send j m c' k hj hn hc' hfreshc =>
      obtain rfl := sender_eq hone hj
      obtain rfl : m = n := Option.some.inj (hj.symm.trans hholder)
      obtain rfl : c' = c := Option.some.inj (hc'.symm.trans hvia)
      exact going_sendOn hends hbuffer hj hone hfresh hvia hwire hothers
  | @recvWhole c' b _ _ hbytes =>
      have hcc : c' = c := by
        by_contra hcc
        exact Encoding.ne_nil_of_take hbytes (hothers c' hcc)
      have hsize := congrArg List.length hbytes
      rw [E.length_bytes, List.length_take, hcc, hlen] at hsize
      omega
  | @recvShort c' m heard hgot hheard' =>
      have hcc : c' = c := by
        by_contra hcc
        rw [hothers c' hcc, List.take_nil] at hgot
        exact hgot rfl
      subst hcc
      refine Or.inr (lost_of_channel (c := c') ⟨hends.source, hends.inHand, hends.sink⟩ hfresh
        (fun c₁ hc₁ => (Function.update_of_ne hc₁ _ _).trans (hothers c₁ hc₁))
        (fun hc => absurd rfl (hheard' c' hc).2)
        (fun j j' m m' hj hj' => (sender_eq hone hj).trans (sender_eq hone hj').symm)
        fun j m₁ hj => ?_)
      obtain rfl := sender_eq hone hj
      obtain rfl : m₁ = n := Option.some.inj (hj.symm.trans hholder)
      exact ⟨hpos, hlt, fun _ hc => absurd rfl (hheard' c' hc).2⟩
  | handOn hhand =>
      rw [hends.inHand] at hhand
      cases hhand

theorem going_step_sent {c : ℕ} (hends : P.Ends [] none []) (hout : ∀ i, P.out i = none)
    (hwire : P.wires c = E.bytes a) (hheard : P.heard c) (hfresh : ¬ P.fresh c)
    (hothers : ∀ c', c' ≠ c → P.wires c' = []) (hstep : P.Step E P') :
    P'.Going E a ∨ P'.Lost E := by
  cases hstep with
  | @control out via heard fresh hout' _ hheard' hfresh' =>
      have hnone : ∀ i, out i = none := fun i => out_none_of_control hout' (hout i)
      by_cases hc : heard c
      · exact Or.inl (.sent ⟨hends.source, hends.inHand, hends.sink⟩ hnone hwire hc
          (fun hc => hfresh (hfresh' c hc)) hothers)
      · exact Or.inr (lost_of_silent ⟨hends.source, hends.inHand, hends.sink⟩ hnone
          (fun hc => hfresh (hfresh' c hc)) hothers hc)
  | dequeue hsource =>
      rw [hends.source] at hsource
      cases hsource
  | @send i n c' k hi _ _ _ =>
      rw [hout i] at hi
      cases hi
  | @recvWhole c' b _ _ hbytes =>
      have hcc : c' = c := by
        by_contra hcc
        exact Encoding.ne_nil_of_take hbytes (hothers c' hcc)
      subst hcc
      rw [hwire, ← E.length_bytes a, List.take_length] at hbytes
      obtain rfl := E.bytes_inj hbytes
      refine Or.inl (.inHand ⟨hout, fun c₁ => ?_⟩ ⟨hends.source, rfl, hends.sink⟩)
      by_cases hcc : c₁ = c'
      · change Function.update P.wires c' _ c₁ = []
        rw [hcc, Function.update_self, hwire, ← E.length_bytes b, List.drop_length]
      · exact (Function.update_of_ne hcc _ _).trans (hothers c₁ hcc)
  | @recvShort c' m heard hgot hheard' =>
      have hcc : c' = c := by
        by_contra hcc
        rw [hothers c' hcc, List.take_nil] at hgot
        exact hgot rfl
      subst hcc
      exact Or.inr (lost_of_silent ⟨hends.source, hends.inHand, hends.sink⟩ hout hfresh
        (fun c₁ hc₁ => (Function.update_of_ne hc₁ _ _).trans (hothers c₁ hc₁))
        fun hc => absurd rfl (hheard' c' hc).2)
  | handOn hhand =>
      rw [hends.inHand] at hhand
      cases hhand

theorem Going.step (h : P.Going E a) (hstep : P.Step E P') : P'.Going E a ∨ P'.Lost E := by
  cases h with
  | inSource hstill hends =>
      left
      rcases hstill.step hstep with ⟨hstill', hends'⟩ | ⟨i, b, rest, hsource, rfl⟩ | ⟨b, hhand, _⟩
      · rw [hends.source, hends.inHand, hends.sink] at hends'
        exact .inSource hstill' hends'
      · rw [hends.source] at hsource
        cases hsource
        exact .taken ⟨rfl, hends.inHand, hends.sink⟩ rfl (Function.update_self _ _ _)
          (fun j hj => (Function.update_of_ne hj _ _).trans (hstill.out j)) hstill.wires
      · rw [hends.inHand] at hhand
        cases hhand
  | inHand hstill hends =>
      left
      rcases hstill.step hstep with ⟨hstill', hends'⟩ | ⟨i, b, rest, hsource, _⟩ |
        ⟨b, hhand, hstill', hends'⟩
      · rw [hends.source, hends.inHand, hends.sink] at hends'
        exact .inHand hstill' hends'
      · rw [hends.source] at hsource
        cases hsource
      · rw [hends.inHand] at hhand
        cases hhand
        rw [hends.source, hends.sink, List.nil_append] at hends'
        exact .inSink hstill' hends'
  | inSink hstill hends =>
      left
      rcases hstill.step hstep with ⟨hstill', hends'⟩ | ⟨i, b, rest, hsource, _⟩ | ⟨b, hhand, _⟩
      · rw [hends.source, hends.inHand, hends.sink] at hends'
        exact .inSink hstill' hends'
      · rw [hends.source] at hsource
        cases hsource
      · rw [hends.inHand] at hhand
        cases hhand
  | taken hends hbuffer hholder hone hwires =>
      exact going_step_taken hends hbuffer hholder hone hwires hstep
  | sending hends hbuffer hholder hpos hlt hone hvia hwire hheard hfresh hothers =>
      exact going_step_sending hends hbuffer hholder hpos hlt hone hvia hwire hheard hfresh hothers
        hstep
  | sent hends hout hwire hheard hfresh hothers =>
      exact going_step_sent hends hout hwire hheard hfresh hothers hstep

-- what comes out is the message itself
theorem Going.get (h : P.Going E a) {b : α} {rest : List α} (hsink : P.sink = b :: rest) :
    b = a ∧ { P with sink := rest }.Quiet := by
  have hnot : ∀ {source inHand}, P.Ends source inHand [] →
      b = a ∧ { P with sink := rest }.Quiet := by
    intro source inHand hends
    rw [hends.sink] at hsink
    cases hsink
  cases h with
  | inSink hstill hends =>
      rw [hends.sink] at hsink
      cases hsink
      exact ⟨rfl, ⟨hstill.out, hstill.wires⟩, hends.source, hends.inHand, rfl⟩
  | inSource _ hends => exact hnot hends
  | taken hends => exact hnot hends
  | sending hends => exact hnot hends
  | sent hends => exact hnot hends
  | inHand _ hends => exact hnot hends

end Passage

end SimConnect.Foundation
