import MarketEngine.Channel.Network
import Mathlib.Data.List.Nodup
import Mathlib.Data.List.Perm.Basic
/-!
# What consumers do to the shared state

The consumers of a network change the shared state only by beginning with a message and by going on
with one (`Network.proceed_spec`). Sends that start and go on change channels only
(`Network.Still`).
-/

namespace MarketEngine

variable {ℓ π σ κ : Type}

/-- What is left to do of a message, if anything is. -/
def Next.rests : Next π κ → List κ
  | .done _ => []
  | .send _ _ rest => [rest]
  | .wait rest => [rest]

/-- The message that has to be sent before anything else, if there is one. -/
def Next.sends : Next π κ → List (Topic × Message π)
  | .done _ => []
  | .send topic m _ => [(topic, m)]
  | .wait _ => []

def Pending.rest : Pending κ → κ
  | .sending _ rest => rest
  | .waiting rest => rest

namespace Network

/-- What is left to do of the messages that consumers are in the midst of. -/
def rests (n : Network ℓ π σ κ) : List κ := n.pending.map (·.2.rest)

/-- No consumer is in the midst of two messages. -/
def Orderly (n : Network ℓ π σ κ) : Prop := (n.pending.map (·.1)).Nodup

end Network

/-! ## Who subscribed -/

namespace Channel

/-- The consumers that subscribed have labels of this kind. -/
def Staffed (labels : ℓ → Prop) (c : Channel ℓ π) : Prop := ∀ k ∈ c.consumers, labels k.label

section Staffed

variable {labels : ℓ → Prop} {c : Channel ℓ π}

/-- A change to a consumer that keeps its label keeps all labels. -/
theorem Staffed.modifyConsumer (h : c.Staffed labels) (i : Nat)
    {f : Consumer ℓ π → Consumer ℓ π} (hf : ∀ k, (f k).label = k.label) :
    (c.modifyConsumer i f).Staffed labels := by
  intro k hk
  obtain ⟨j, hj⟩ := List.getElem?_of_mem hk
  rw [Channel.modifyConsumer, List.getElem?_modify] at hj
  obtain ⟨old, hold, rfl⟩ := Option.map_eq_some_iff.1 hj
  have hlabel := h old (List.mem_of_getElem? hold)
  split
  · rw [hf]
    exact hlabel
  · exact hlabel

/-- A send brings no consumer. -/
theorem Staffed.send (h : c.Staffed labels) (m : Message π) : (c.send m).1.Staffed labels := by
  unfold Channel.send
  split <;> exact h

/-- A send that goes on brings no consumer. -/
theorem Staffed.advance (h : c.Staffed labels) (d : Nat) : (c.advance d).1.Staffed labels := by
  unfold Channel.advance
  split
  · exact h
  · split
    · exact h
    · split
      · exact h
      · split
        · exact h
        · split
          · exact h
          · split
            · exact h.modifyConsumer _ fun _ => rfl
            · split
              · exact h
              · exact h.modifyConsumer _ fun _ => rfl

/-- A consumer that takes a message keeps its label. -/
theorem Staffed.take (h : c.Staffed labels) (i : Nat) : (c.take i).1.Staffed labels := by
  unfold Channel.take
  split
  · exact h
  · split
    · exact h
    · split
      · exact h.modifyConsumer _ fun _ => rfl
      · split
        · exact h
        · exact h.modifyConsumer _ fun _ => rfl
        · exact h.modifyConsumer _ fun _ => rfl

/-- A consumer that finishes a message keeps its label. -/
theorem Staffed.finish (h : c.Staffed labels) (i : Nat) : (c.finish i).Staffed labels :=
  h.modifyConsumer i fun _ => rfl

end Staffed

end Channel

namespace Network

/-- The consumers of all channels have labels of this kind. -/
def Staffed (labels : ℓ → Prop) (n : Network ℓ π σ κ) : Prop :=
  ∀ ⦃topic : Topic⦄ ⦃c : Channel ℓ π⦄, n.channel? topic = some c → c.Staffed labels

/-- Who is to go on is kept apart from the channels. -/
@[simp] theorem channels_enqueue (n : Network ℓ π σ κ) (a : Actor) :
    (n.enqueue a).channels = n.channels := by
  unfold enqueue
  split <;> rfl

/-- However many are to go on, the channels are the same. -/
@[simp] theorem channels_foldl_enqueue (n : Network ℓ π σ κ) (actors : List Actor) :
    (actors.foldl enqueue n).channels = n.channels := by
  induction actors generalizing n with
  | nil => rfl
  | cons a rest ih => rw [List.foldl_cons, ih, channels_enqueue]

/-- A channel that is put back has woken its consumers and senders, and the other channels are as
they were. -/
theorem channel?_put (n : Network ℓ π σ κ) (topic topic' : Topic) (c : Channel ℓ π) :
    (n.put topic c).channel? topic'
      = if topic' == topic then some { c with woken := [] } else n.channel? topic' := by
  rw [channel?, put, channels_foldl_enqueue, Table.get?_put, channel?]

/-! ## Channels aside -/

/-- Only channels changed, and who is to go on. -/
structure Calm (n n' : Network ℓ π σ κ) : Prop where
  shared_eq : n'.shared = n.shared
  pending_eq : n'.pending = n.pending

namespace Calm

variable {n n' n'' : Network ℓ π σ κ}

theorem refl (n : Network ℓ π σ κ) : n.Calm n := ⟨rfl, rfl⟩

/-- Two stretches in which only channels changed make one. -/
theorem trans (h : n.Calm n') (h' : n'.Calm n'') : n.Calm n'' :=
  ⟨h'.shared_eq.trans h.shared_eq, h'.pending_eq.trans h.pending_eq⟩

/-- What is left to do of the messages under way is no matter of the channels. -/
theorem rests_eq (h : n.Calm n') : n'.rests = n.rests := by rw [rests, h.pending_eq, rests]

/-- Nobody comes to be in the midst of two messages when only channels change. -/
theorem orderly (h : n.Calm n') (hn : n.Orderly) : n'.Orderly := by
  rw [Orderly, h.pending_eq]
  exact hn

end Calm

/-- Only the line of those who are to go on changes. -/
theorem calm_enqueue (n : Network ℓ π σ κ) (a : Actor) : n.Calm (n.enqueue a) := by
  unfold enqueue
  split <;> exact ⟨rfl, rfl⟩

/-- Only a channel and the line change when the channel is put back. -/
theorem calm_put (n : Network ℓ π σ κ) (topic : Topic) (c : Channel ℓ π) :
    n.Calm (n.put topic c) := by
  have hfold : ∀ (actors : List Actor) (n : Network ℓ π σ κ), n.Calm (actors.foldl enqueue n) := by
    intro actors
    induction actors with
    | nil => exact fun n => .refl n
    | cons a rest ih => exact fun n => (calm_enqueue n a).trans (ih _)
  have hstored : n.Calm { n with channels := n.channels.put topic { c with woken := [] } } :=
    ⟨rfl, rfl⟩
  exact hstored.trans (hfold _ _)

/-- Only a channel and the line change when the channel is changed. -/
theorem calm_modify (n : Network ℓ π σ κ) (topic : Topic) (f : Channel ℓ π → Channel ℓ π) :
    n.Calm (n.modify topic f) := by
  unfold modify
  split
  · exact calm_put ..
  · exact .refl n

/-- Only channels changed, and nobody new subscribed. -/
structure Still (n n' : Network ℓ π σ κ) : Prop extends n.Calm n' where
  staffed : ∀ ⦃labels : ℓ → Prop⦄, n.Staffed labels → n'.Staffed labels

namespace Still

variable {n n' n'' : Network ℓ π σ κ}

/-- Where the channels are the same nobody new subscribed. -/
theorem of_eq (hshared : n'.shared = n.shared) (hpending : n'.pending = n.pending)
    (hchannels : n'.channels = n.channels) : n.Still n' where
  shared_eq := hshared
  pending_eq := hpending
  staffed labels h topic c hc := by
    rw [channel?, hchannels] at hc
    exact h hc

theorem refl (n : Network ℓ π σ κ) : n.Still n := of_eq rfl rfl rfl

/-- Nobody new subscribed in two stretches, so nobody did in both. -/
theorem trans (h : n.Still n') (h' : n'.Still n'') : n.Still n'' where
  toCalm := h.toCalm.trans h'.toCalm
  staffed _ hn := h'.staffed (h.staffed hn)

end Still

/-- A channel with no new consumers is put back. -/
theorem still_put {n : Network ℓ π σ κ} {topic : Topic} {c c' : Channel ℓ π}
    (hc : n.channel? topic = some c)
    (hstaffed : ∀ {labels : ℓ → Prop}, c.Staffed labels → c'.Staffed labels) :
    n.Still (n.put topic c') where
  toCalm := calm_put n topic c'
  staffed labels h topic' old hold := by
    rw [channel?_put] at hold
    split at hold
    · rw [Option.some.injEq] at hold
      subst hold
      exact hstaffed (h hc)
    · exact h hold

/-- Nobody new subscribes when a consumer finishes a message. -/
theorem still_finish (n : Network ℓ π σ κ) (a : Address) :
    n.Still (n.modify a.topic (·.finish a.consumer)) := by
  unfold modify
  split
  · next c hc => exact still_put hc fun h => h.finish a.consumer
  · exact .refl n

/-- Nobody new subscribes when a message is sent. -/
theorem still_send (n : Network ℓ π σ κ) (topic : Topic) (m : Message π) :
    n.Still (n.send topic m).1 := by
  unfold send
  split
  · next c hc => exact still_put hc fun h => h.send m
  · exact .refl n

/-- Nobody new subscribes when a send goes on. -/
theorem still_advance (n : Network ℓ π σ κ) (t : Ticket) : n.Still (n.advance t).1 := by
  unfold advance
  split
  · next c hc => exact still_put hc fun h => h.advance t.delivery
  · exact .refl n

/-- Nobody new subscribes while a send is driven for some steps. -/
theorem still_driveFor (n : Network ℓ π σ κ) (t : Ticket) (steps : Nat) :
    n.Still (n.driveFor t steps) := by
  induction steps generalizing n with
  | zero => exact .refl n
  | succ steps ih =>
    have hadvance := still_advance n t
    unfold driveFor
    split
    · next n' hn' =>
      rw [hn'] at hadvance
      exact hadvance.trans (ih n')
    · next n' _ hn' =>
      rw [hn'] at hadvance
      exact hadvance

/-- Nobody new subscribes while a send is driven as far as it goes. -/
theorem still_drive (n : Network ℓ π σ κ) (t : Ticket) : n.Still (n.drive t) :=
  still_driveFor n t _

/-! ## Beginning and going on -/

/-- A consumer that begins a message, goes on with it or is done is in the midst of one at most. -/
theorem orderly_setPending {n : Network ℓ π σ κ} (h : n.Orderly) (a : Address)
    (p : Option (Pending κ)) : (n.setPending a p).Orderly := by
  have hothers : ((n.pending.filter (·.1 ≠ a)).map (·.1)).Nodup :=
    h.sublist (List.filter_sublist.map _)
  cases p with
  | none => exact hothers
  | some p =>
    refine List.nodup_cons.2 ⟨fun ha => ?_, hothers⟩
    obtain ⟨entry, hentry, rfl⟩ := List.mem_map.1 ha
    simpa using (List.mem_filter.1 hentry).2

/-- The other messages that are under way. -/
def others (n : Network ℓ π σ κ) (a : Address) : List κ :=
  (n.pending.filter (·.1 ≠ a)).map (·.2.rest)

/-- If a consumer is in the midst of nothing, all messages under way are those of others. -/
theorem rests_eq_others {n : Network ℓ π σ κ} {a : Address} (h : n.pending.lookup a = none) :
    n.rests = n.others a := by
  have hall : n.pending.filter (·.1 ≠ a) = n.pending := by
    rw [List.filter_eq_self]
    intro entry hentry
    have hne := List.lookup_eq_none_iff.1 h entry hentry
    exact decide_eq_true (Ne.symm (bne_iff_ne.1 hne))
  rw [rests, others, hall]

/-- What a consumer is in the midst of is one of the messages under way, and the rest of them are
those of others. -/
theorem rests_perm_others {n : Network ℓ π σ κ} (hn : n.Orderly) {a : Address} {p : Pending κ}
    (h : n.pending.lookup a = some p) : n.rests.Perm (p.rest :: n.others a) := by
  unfold rests others Orderly at *
  generalize n.pending = entries at *
  induction entries with
  | nil => simp at h
  | cons entry entries ih =>
    obtain ⟨b, q⟩ := entry
    rw [List.map_cons, List.nodup_cons] at hn
    by_cases hb : a = b
    · subst hb
      obtain rfl : q = p := by simpa [List.lookup_cons] using h
      -- no other entry has this address
      have hrest : entries.filter (·.1 ≠ a) = entries := by
        rw [List.filter_eq_self]
        rintro ⟨c, r⟩ hentry
        have hne : c ≠ a := fun hc => hn.1 (List.mem_map.2 ⟨_, hentry, hc⟩)
        simpa using hne
      rw [List.filter_cons_of_neg (by simp), hrest, List.map_cons]
    · have hlookup : entries.lookup a = some p := by
        rw [List.lookup_cons, beq_eq_false_iff_ne.2 hb] at h
        exact h
      rw [List.filter_cons_of_pos (by simpa using Ne.symm hb), List.map_cons, List.map_cons]
      exact (List.Perm.cons _ (ih hn.2 hlookup)).trans (List.Perm.swap _ _ _)

/-- Who goes on leaves the others as they were. -/
structure Proceeds (n : Network ℓ π σ κ) (a : Address) (next : Next π κ × σ)
    (n' : Network ℓ π σ κ) : Prop where
  shared_eq : n'.shared = next.2
  perm : n'.rests.Perm (n.others a ++ next.1.rests)
  orderly : n'.Orderly
  staffed : ∀ ⦃labels : ℓ → Prop⦄, n.Staffed labels → n'.Staffed labels

/-- A consumer goes on with its message: it is done and takes another in its next turn, or what is
left of its message stays under way, and nobody else is concerned. -/
theorem proceed_spec {n : Network ℓ π σ κ} (hn : n.Orderly) (a : Address) (next : Next π κ × σ) :
    n.Proceeds a next (n.proceed a next) := by
  obtain ⟨next, shared⟩ := next
  have hset : ∀ n' : Network ℓ π σ κ, n'.pending = n.pending → ∀ p, (n'.setPending a p).Orderly :=
    fun n' hn' p => orderly_setPending (n := n') (by rw [Orderly, hn']; exact hn) a p
  cases next with
  | done failure =>
    have hstill := still_finish (setPending { n with shared } a none) a
    refine ⟨hstill.shared_eq, ?_, hstill.orderly (hset _ rfl none), fun labels h => ?_⟩
    · change (modify _ _ _).rests.Perm _
      rw [hstill.rests_eq]
      simp [Next.rests, rests, others, setPending]
    · exact hstill.staffed h
  | send topic message rest =>
    have hstill := still_send { n with shared } topic message
    refine ⟨hstill.shared_eq, ?_, hset _ hstill.pending_eq _, fun labels h => hstill.staffed h⟩
    -- the consumer stands first among those in the midst of a message now
    simp only [proceed, rests, setPending, hstill.pending_eq, Next.rests, others, List.map_cons,
      Pending.rest]
    exact (List.perm_append_singleton rest _).symm
  | wait rest =>
    refine ⟨rfl, ?_, hset { n with shared } rfl (some (.waiting rest)), fun labels h => h⟩
    simp only [proceed, rests, Network.rest, setPending, Next.rests, others, List.map_cons,
      Pending.rest]
    exact (List.perm_append_singleton rest _).symm

end Network

end MarketEngine
