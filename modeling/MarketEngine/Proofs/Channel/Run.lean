import MarketEngine.Channel.Basic
import Mathlib.Data.List.Nodup
/-!
# Runs of a channel

A run is a sequence of atomic steps in any order (`ChannelEvent`): whoever subscribes, sends, stops
or starts, sends that go on by one consumer, and consumers that take a message or end its handling.
Besides the channel, a run keeps which send went past which consumer, in order.

Apart from subscriptions and sends, a step keeps what was queued with every consumer that it leaves
uncanceled (`Channel.Kept`).
-/

namespace MarketEngine

variable {ℓ π : Type}

/-- An atomic step of a channel. -/
inductive ChannelEvent (ℓ π : Type) where
  | subscribe (label : ℓ) (subscription : Subscription)
  | lookup (key : RoutingKey)
  /-- Somebody asks for the producer, and gets it if nobody has it. -/
  | issueProducer
  /-- A send starts. -/
  | send (m : Message π)
  /-- A send goes on. -/
  | advance (d : Nat)
  /-- A consumer that is not handling a message takes its turn. -/
  | take (i : Nat)
  /-- A callback returns, with or without an error. -/
  | finish (i : Nat)
  | stopConsumer (i : Nat)
  | remove (i : Nat)
  | stop
  | start
  /-- Those who were woken are lined up. -/
  | lineUp
  deriving Repr

namespace Channel

def step (c : Channel ℓ π) : ChannelEvent ℓ π → Channel ℓ π
  | .subscribe label subscription => (c.subscribe label subscription).1
  | .lookup key => (c.lookup key).1
  | .issueProducer => c.issueProducer.getD c
  | .send m => (c.send m).1
  | .advance d => (c.advance d).1
  | .take i => (c.take i).1
  | .finish i => c.finish i
  | .stopConsumer i => c.stopConsumer i
  | .remove i => c.remove i
  | .stop => c.stop
  | .start => c.start
  | .lineUp => { c with woken := [] }

def run (c : Channel ℓ π) (events : List (ChannelEvent ℓ π)) : Channel ℓ π := events.foldl step c

/-- However it goes, the producer is issued then, and nothing else changes. -/
theorem step_issueProducer (c : Channel ℓ π) : c.step .issueProducer = c.withProducer := by
  rw [step, issueProducer, withProducer]
  split
  · next hissued => rw [Option.getD_none, ← hissued]
  · rfl

/-- The consumer that a send comes to next. -/
def next? (c : Channel ℓ π) (d : Nat) : Option Nat := (c.deliveries[d]?).bind (·.remaining.head?)

def message? (c : Channel ℓ π) (d : Nat) : Option (Message π) := (c.deliveries[d]?).map (·.message)

/-- While no send is under way, all are completed. -/
theorem mem_sent {c : Channel ℓ π} (h : c.underWay = []) {d : Nat} {s : Delivery π}
    (hs : c.deliveries[d]? = some s) : d ∈ c.sent := by
  by_contra hsent
  have hmem : s ∈ c.underWay := by
    refine List.mem_map.2 ⟨(s, d), List.mem_filter.2 ⟨?_, ?_⟩, rfl⟩
    · exact List.mk_mem_zipIdx_iff_getElem?.2 hs
    · simpa [isSent] using hsent
  rw [h] at hmem
  simp at hmem

/-- The consumers that a step lets a send go past: the next one, or none. -/
def passes (c : Channel ℓ π) : ChannelEvent ℓ π → List (Nat × Nat)
  | .advance d => if (c.advance d).2 = .moved then (c.next? d).toList.map (d, ·) else []
  | _ => []

end Channel

/-- A channel with its history. -/
structure ChannelRun (ℓ π : Type) where
  channel : Channel ℓ π
  /-- Which send went past which consumer, in order. -/
  passed : List (Nat × Nat) := []

namespace ChannelRun

def opening (queueSize filterSize : Nat) : ChannelRun ℓ π where
  channel := .empty queueSize filterSize

def step (r : ChannelRun ℓ π) (e : ChannelEvent ℓ π) : ChannelRun ℓ π where
  channel := r.channel.step e
  passed := r.passed ++ r.channel.passes e

def run (r : ChannelRun ℓ π) (events : List (ChannelEvent ℓ π)) : ChannelRun ℓ π :=
  events.foldl step r

/-- The history follows the channel and does not steer it. -/
theorem channel_run (r : ChannelRun ℓ π) (events : List (ChannelEvent ℓ π)) :
    (r.run events).channel = r.channel.run events := by
  induction events generalizing r with
  | nil => rfl
  | cons e rest ih => exact ih (r.step e)

/-- The sends that went past a consumer, in order. -/
def passedTo (r : ChannelRun ℓ π) (i : Nat) : List Nat := (r.passed.filter (·.2 == i)).map (·.1)

/-- The consumers that a send went past, in order. -/
def passedBy (r : ChannelRun ℓ π) (d : Nat) : List Nat := (r.passed.filter (·.1 == d)).map (·.2)

/-- The sends that went past a consumer, read off the history. -/
theorem mem_passedTo {r : ChannelRun ℓ π} {d i : Nat} : d ∈ r.passedTo i ↔ (d, i) ∈ r.passed := by
  simp [passedTo]

/-- The consumers that a send went past, read off the history. -/
theorem mem_passedBy {r : ChannelRun ℓ π} {d i : Nat} : i ∈ r.passedBy d ↔ (d, i) ∈ r.passed := by
  simp [passedBy]

end ChannelRun

/-! ## What a step keeps -/

namespace Consumer

/-- Everything that was queued with a consumer, the oldest first. -/
def contents (k : Consumer ℓ π) : List (Message π) := k.handled ++ k.held.toList ++ k.queue

end Consumer

namespace Channel

/-- The sends are where they were, and with every consumer that is not canceled there is what was
there before. -/
structure Kept (c c' : Channel ℓ π) : Prop where
  capacity_eq : c'.capacity = c.capacity
  deliveries_eq : c'.deliveries = c.deliveries
  sent_eq : c'.sent = c.sent
  registered_sublist : c'.registered.Sublist c.registered
  length_eq : c'.consumers.length = c.consumers.length
  consumer : ∀ ⦃i : Nat⦄ ⦃k' : Consumer ℓ π⦄, c'.consumers[i]? = some k' → k'.canceled = false →
    ∃ k, c.consumers[i]? = some k ∧ k.canceled = false ∧ k'.contents = k.contents ∧
      k'.taken ≤ k.taken

namespace Kept

variable {c c' c'' : Channel ℓ π}

/-- Nothing is lost where consumers and sends are the same. -/
theorem of_eq (hconsumers : c'.consumers = c.consumers) (hcapacity : c'.capacity = c.capacity)
    (hdeliveries : c'.deliveries = c.deliveries) (hsent : c'.sent = c.sent)
    (hregistered : c'.registered.Sublist c.registered) : c.Kept c' where
  capacity_eq := hcapacity
  deliveries_eq := hdeliveries
  sent_eq := hsent
  registered_sublist := hregistered
  length_eq := by rw [hconsumers]
  consumer i k' hk' hcanceled := ⟨k', hconsumers ▸ hk', hcanceled, rfl, Nat.le_refl _⟩

theorem refl (c : Channel ℓ π) : c.Kept c := of_eq rfl rfl rfl rfl (List.Sublist.refl _)

/-- What two steps keep, the two of them keep. -/
theorem trans (h : c.Kept c') (h' : c'.Kept c'') : c.Kept c'' where
  capacity_eq := h'.capacity_eq.trans h.capacity_eq
  deliveries_eq := h'.deliveries_eq.trans h.deliveries_eq
  sent_eq := h'.sent_eq.trans h.sent_eq
  registered_sublist := h'.registered_sublist.trans h.registered_sublist
  length_eq := h'.length_eq.trans h.length_eq
  consumer i k'' hk'' hcanceled := by
    obtain ⟨k', hk', hcanceled', hcontents', htaken'⟩ := h'.consumer hk'' hcanceled
    obtain ⟨k, hk, hcanceled, hcontents, htaken⟩ := h.consumer hk' hcanceled'
    exact ⟨k, hk, hcanceled, hcontents'.trans hcontents, Nat.le_trans htaken' htaken⟩

end Kept

/-- A consumer may be changed as long as it is canceled then or has what it had. -/
theorem kept_modifyConsumer {c : Channel ℓ π} {i : Nat} {f : Consumer ℓ π → Consumer ℓ π}
    (hf : ∀ k, c.consumers[i]? = some k → (f k).canceled = false →
      k.canceled = false ∧ (f k).contents = k.contents ∧ (f k).taken ≤ k.taken) :
    c.Kept (c.modifyConsumer i f) where
  capacity_eq := rfl
  deliveries_eq := rfl
  sent_eq := rfl
  registered_sublist := List.Sublist.refl _
  length_eq := by simp [modifyConsumer]
  consumer j k' hk' hcanceled := by
    simp only [modifyConsumer, List.getElem?_modify] at hk'
    obtain ⟨k, hk, rfl⟩ := Option.map_eq_some_iff.1 hk'
    refine ⟨k, hk, ?_⟩
    split at hcanceled
    · next hij =>
      subst hij
      simpa using hf k hk hcanceled
    · next hij => simpa [hij] using hcanceled

/-- Waking somebody keeps what there is with the consumers. -/
theorem kept_wake (c : Channel ℓ π) (who : List Wake) : c.Kept (c.wake who) :=
  .of_eq rfl rfl rfl rfl (List.Sublist.refl _)

/-- A cancellation loses nothing of the consumers that are not canceled. -/
theorem kept_cancel (c : Channel ℓ π) (i : Nat) : c.Kept (c.cancel i) := by
  unfold cancel
  split
  · exact .refl c
  · split
    · exact .refl c
    · refine (kept_modifyConsumer fun k _ h => ?_).trans (kept_wake _ _)
      simp at h

/-- Stopping a consumer loses nothing of the others. -/
theorem kept_stopConsumer (c : Channel ℓ π) (i : Nat) : c.Kept (c.stopConsumer i) :=
  (kept_cancel c i).trans (kept_modifyConsumer fun _ _ h => ⟨h, rfl, Nat.le_refl _⟩)

/-- A removal takes one consumer off the register and loses nothing of the others. -/
theorem kept_remove (c : Channel ℓ π) (i : Nat) : c.Kept (c.remove i) :=
  (kept_stopConsumer c i).trans (.of_eq rfl rfl rfl rfl List.filter_sublist)

/-- A message that is taken was the next in the queue: what the consumer has is in the same order.
-/
theorem kept_take (c : Channel ℓ π) (i : Nat) : c.Kept (c.take i).1 := by
  unfold take
  split
  · exact .refl c
  · next k hk =>
    split
    · exact .refl c
    · next hidle =>
      have hheld : k.held = none := by
        simp only [Consumer.isIdle, Bool.not_eq_true', Bool.not_eq_false, Bool.and_eq_true,
          Option.isNone_iff_eq_none] at hidle
        exact hidle.1
      have hsame : ∀ k', c.consumers[i]? = some k' → k' = k := fun k' hk' => by
        rw [hk, Option.some.injEq] at hk'
        exact hk'.symm
      split
      -- of a canceled consumer nothing is asked
      · next hcanceled =>
        refine kept_modifyConsumer fun k' hk' h => ?_
        rw [hsame k' hk'] at h
        simp [hcanceled] at h
      · split
        · exact .refl c
        · next m queue hqueue hwaiting =>
          refine kept_modifyConsumer fun k' hk' h => ?_
          obtain rfl := hsame k' hk'
          refine ⟨h, ?_, ?_⟩
          · simp [Consumer.contents, hheld, hqueue]
          · simp only [Consumer.taken, hqueue, List.length_cons]
            omega
        · next m queue d waiting hqueue hwaiting =>
          refine (kept_modifyConsumer fun k' hk' h => ?_).trans (kept_wake _ _)
          obtain rfl := hsame k' hk'
          refine ⟨h, ?_, ?_⟩
          · simp [Consumer.contents, hheld, hqueue]
          · -- the place of the message goes to the send that waited
            simp only [Consumer.taken, hqueue, List.length_cons, List.length_append,
              List.length_nil]
            omega

/-- A message in hand becomes the last of those that were handled. -/
theorem kept_finish (c : Channel ℓ π) (i : Nat) : c.Kept (c.finish i) :=
  kept_modifyConsumer fun _ _ h => ⟨h, by simp [Consumer.contents], Nat.le_refl _⟩

/-- Cancellations in turn lose nothing of the consumers that are not canceled. -/
theorem kept_foldl_cancel (c : Channel ℓ π) (order : List Nat) :
    c.Kept (order.foldl cancel c) := by
  induction order generalizing c with
  | nil => exact .refl c
  | cons i rest ih => exact (kept_cancel c i).trans (ih _)

/-- A stop cancels consumers, and keeps what is with any that would not be. -/
theorem kept_stop (c : Channel ℓ π) : c.Kept c.stop := by
  unfold stop
  split
  · have hcleared : c.Kept { c with running := false, registered := [] } :=
      .of_eq rfl rfl rfl rfl (List.nil_sublist _)
    exact hcleared.trans (kept_foldl_cancel _ _)
  · exact .refl c

/-- A start touches no consumer that is not canceled. -/
theorem kept_start (c : Channel ℓ π) : c.Kept c.start := by
  unfold start
  split
  · exact .refl c
  · exact .of_eq rfl rfl rfl rfl (List.Sublist.refl _)

/-- Apart from subscriptions and sends, every step keeps what is there. -/
theorem kept_step (c : Channel ℓ π) {e : ChannelEvent ℓ π}
    (hsubscribe : ∀ label subscription, e ≠ .subscribe label subscription)
    (hsend : ∀ m, e ≠ .send m) (hadvance : ∀ d, e ≠ .advance d) : c.Kept (c.step e) := by
  cases e with
  | subscribe label subscription => exact absurd rfl (hsubscribe label subscription)
  | send m => exact absurd rfl (hsend m)
  | advance d => exact absurd rfl (hadvance d)
  | lookup key => exact .of_eq rfl rfl rfl rfl (List.Sublist.refl _)
  | issueProducer =>
    rw [step_issueProducer]
    exact .of_eq rfl rfl rfl rfl (List.Sublist.refl _)
  | take i => exact kept_take c i
  | finish i => exact kept_finish c i
  | stopConsumer i => exact kept_stopConsumer c i
  | remove i => exact kept_remove c i
  | stop => exact kept_stop c
  | start => exact kept_start c
  | lineUp => exact .of_eq rfl rfl rfl rfl (List.Sublist.refl _)

/-! ## How a send starts and goes on -/

/-- What the start of a send changes. On a stopped channel it selects nobody and is completed. -/
structure Send (c : Channel ℓ π) (m : Message π) (selected : List Nat) (c' : Channel ℓ π) :
    Prop where
  capacity_eq : c'.capacity = c.capacity
  consumers_eq : c'.consumers = c.consumers
  registered_eq : c'.registered = c.registered
  deliveries_eq : c'.deliveries
    = c.deliveries ++ [{ message := m, selected, remaining := selected }]
  sent_eq : (∃ flagged, selected = c.select m.key flagged) ∧ c'.sent = c.sent ∨
    selected = [] ∧ c'.sent = c.sent ++ [c.deliveries.length]

/-- A send starts with a selection and delivers nothing yet. -/
theorem send_spec (c : Channel ℓ π) (m : Message π) :
    ∃ selected, c.Send m selected (c.send m).1 := by
  unfold send
  split
  · exact ⟨_, rfl, rfl, rfl, rfl, .inl ⟨⟨_, rfl⟩, rfl⟩⟩
  · exact ⟨[], rfl, rfl, rfl, rfl, .inr ⟨rfl, rfl⟩⟩

section Send

variable {c c' : Channel ℓ π} {m : Message π} {selected : List Nat}

/-- A send that starts is completed only if it selects nobody. -/
theorem Send.mem_sent (h : c.Send m selected c') {d : Nat} (hd : d ∈ c'.sent) :
    d ∈ c.sent ∨ d = c.deliveries.length ∧ selected = [] := by
  rcases h.sent_eq with ⟨-, hsent⟩ | ⟨hnone, hsent⟩
  · rw [hsent] at hd
    exact .inl hd
  · rw [hsent] at hd
    rcases List.mem_append.1 hd with hold | hnew
    · exact .inl hold
    · exact .inr ⟨List.mem_singleton.1 hnew, hnone⟩

/-- A send selects nobody, as on a stopped channel, or whom the register has for its key. -/
theorem Send.selected_cases (h : c.Send m selected c') :
    selected = [] ∨ ∃ flagged, selected = c.select m.key flagged := by
  rcases h.sent_eq with ⟨hselect, -⟩ | ⟨hnone, -⟩
  · exact .inr hselect
  · exact .inl hnone

end Send

/-- A send goes past the next of its consumers. With that one, if it is not canceled, there is then
the message too, and the others have what they had. -/
structure Passing (c : Channel ℓ π) (d i : Nat) (s : Delivery π) (c' : Channel ℓ π) : Prop where
  getElem? : c.deliveries[d]? = some s
  head_eq : s.remaining = i :: s.remaining.tail
  capacity_eq : c'.capacity = c.capacity
  registered_eq : c'.registered = c.registered
  sent_eq : c'.sent = c.sent
  length_eq : c'.consumers.length = c.consumers.length
  deliveries_eq : c'.deliveries
    = c.deliveries.modify d fun s => { s with remaining := s.remaining.tail }
  others : ∀ ⦃j : Nat⦄ ⦃k : Consumer ℓ π⦄, j ≠ i → c'.consumers[j]? = some k →
    c.consumers[j]? = some k
  next : ∀ ⦃k : Consumer ℓ π⦄, c'.consumers[i]? = some k → k.canceled = false →
    ∃ old, c.consumers[i]? = some old ∧ old.canceled = false ∧
      k.contents = old.contents ++ [s.message] ∧ (old.taken ≤ c.capacity → k.taken ≤ c.capacity)

section Passing

variable {c : Channel ℓ π} {d i : Nat} {s : Delivery π}

/-- A send passes by a consumer that is canceled or gone. -/
theorem passing_pass (hs : c.deliveries[d]? = some s) {rest : List Nat}
    (hremaining : s.remaining = i :: rest)
    (hgone : ∀ k, c.consumers[i]? = some k → k.canceled = true) : c.Passing d i s (c.pass d) where
  getElem? := hs
  head_eq := by simp [hremaining]
  capacity_eq := rfl
  registered_eq := rfl
  sent_eq := rfl
  length_eq := rfl
  deliveries_eq := rfl
  others _ _ _ hk := hk
  next k hk hcanceled := by
    rw [hgone k hk] at hcanceled
    simp at hcanceled

/-- A send that has a place in the queue of its next consumer puts its message there and goes on. -/
theorem passing_enqueue (hs : c.deliveries[d]? = some s) {rest : List Nat}
    (hremaining : s.remaining = i :: rest) {k : Consumer ℓ π} (hk : c.consumers[i]? = some k)
    (hcanceled : k.canceled = false) (hplace : d ∈ k.granted ∨ k.taken < c.capacity) :
    c.Passing d i s (c.enqueue d i s.message k) where
  getElem? := hs
  head_eq := by simp [hremaining]
  capacity_eq := rfl
  registered_eq := rfl
  sent_eq := rfl
  length_eq := by simp [enqueue, wake, pass, modifyDelivery, modifyConsumer]
  deliveries_eq := rfl
  others j k' hj hk' := by
    simpa [enqueue, wake, pass, modifyDelivery, modifyConsumer, List.getElem?_modify,
      hj.symm] using hk'
  next k' hk' _ := by
    simp only [enqueue, wake, pass, modifyDelivery, modifyConsumer, List.getElem?_modify_eq, hk,
      Option.map_eq_map, Option.map_some, Option.some.injEq] at hk'
    subst hk'
    refine ⟨k, hk, hcanceled, by simp [Consumer.contents], fun htaken => ?_⟩
    simp only [Consumer.taken, List.length_append, List.length_singleton] at htaken hplace ⊢
    -- either the place was kept for the send, or there was a free one
    rcases hplace with hgranted | hfree
    · have hkept := List.length_erase_of_mem hgranted
      have hpositive := List.length_pos_of_mem hgranted
      omega
    · have hle := List.length_erase_le (a := d) (l := k.granted)
      omega

end Passing

/-- What one step of a send can come to. -/
inductive Advance (c : Channel ℓ π) (d : Nat) : Channel ℓ π × Progress → Prop where
  | ended : Advance c d (c, .completed)
  | completed {s : Delivery π} (hs : c.deliveries[d]? = some s) (hremaining : s.remaining = []) :
    Advance c d ({ c with filter := c.filter.hasSend, sent := c.sent ++ [d] }, .completed)
  | moved {s : Delivery π} {i : Nat} {c' : Channel ℓ π} (hpassing : c.Passing d i s c') :
    Advance c d (c', .moved)
  | blocked {c' : Channel ℓ π} (hkept : c.Kept c') : Advance c d (c', .blocked)

/-- A step of a send ends it, lets it go past its next consumer, or leaves it where it is. -/
theorem advance_spec (c : Channel ℓ π) (d : Nat) : c.Advance d (c.advance d) := by
  unfold advance
  split
  · exact .ended
  · next s hs =>
    split
    · exact .ended
    · split
      · next hremaining => exact .completed hs hremaining
      · next i rest hremaining =>
        split
        · next hnone => exact .moved (passing_pass hs hremaining fun k hk => by simp [hnone] at hk)
        · next k hk =>
          split
          · next hcanceled =>
            refine .moved (passing_pass hs hremaining fun k' hk' => ?_)
            rw [hk, Option.some.injEq] at hk'
            exact hk' ▸ hcanceled
          · next hcanceled =>
            rw [Bool.not_eq_true] at hcanceled
            split
            · next hplace =>
              refine .moved (passing_enqueue hs hremaining hk hcanceled ?_)
              rcases Bool.or_eq_true_iff.1 hplace with hgranted | hfree
              · exact .inl (by simpa using hgranted)
              · exact .inr (by simpa using (Bool.and_eq_true_iff.1 hfree).2)
            · split
              · exact .blocked (.refl c)
              · exact .blocked (kept_modifyConsumer fun _ _ h => ⟨h, rfl, Nat.le_refl _⟩)

/-! ## What never changes -/

/-- The sends of `c` are still there, with the messages and the selections they started with, and
with some of what they had left. -/
def Started (c c' : Channel ℓ π) : Prop :=
  ∀ ⦃d : Nat⦄ ⦃s : Delivery π⦄, c.deliveries[d]? = some s → ∃ s', c'.deliveries[d]? = some s' ∧
    s'.message = s.message ∧ s'.selected = s.selected ∧ s'.remaining <:+ s.remaining

/-- Where the sends are the same all of them are still there. -/
theorem Started.of_eq {c c' : Channel ℓ π} (h : c'.deliveries = c.deliveries) : c.Started c' :=
  fun _ s hs => ⟨s, h ▸ hs, rfl, rfl, List.suffix_refl _⟩

/-- Sends that are still there after one step and after another are there after both. -/
theorem Started.trans {c c' c'' : Channel ℓ π} (h : c.Started c') (h' : c'.Started c'') :
    c.Started c'' := by
  intro d s hs
  obtain ⟨s', hs', hmessage, hselected, hremaining⟩ := h hs
  obtain ⟨s'', hs'', hmessage', hselected', hremaining'⟩ := h' hs'
  exact ⟨s'', hs'', hmessage'.trans hmessage, hselected'.trans hselected,
    hremaining'.trans hremaining⟩

/-- No step changes the message or the selection of a send, nor how much a queue takes. -/
theorem started_step (c : Channel ℓ π) (e : ChannelEvent ℓ π) :
    c.Started (c.step e) ∧ (c.step e).capacity = c.capacity := by
  by_cases hquiet : (∀ label subscription, e ≠ .subscribe label subscription) ∧
      (∀ m, e ≠ .send m) ∧ ∀ d, e ≠ .advance d
  · have hkept := kept_step c hquiet.1 hquiet.2.1 hquiet.2.2
    exact ⟨.of_eq hkept.deliveries_eq, hkept.capacity_eq⟩
  · cases e with
    | subscribe label subscription => exact ⟨.of_eq rfl, rfl⟩
    | send m =>
      obtain ⟨selected, hsend⟩ := c.send_spec m
      refine ⟨fun d s hs => ⟨s, ?_, rfl, rfl, List.suffix_refl _⟩, hsend.capacity_eq⟩
      have hlt := (List.getElem?_eq_some_iff.1 hs).1
      rw [step, hsend.deliveries_eq, List.getElem?_append_left hlt, hs]
    | advance d =>
      have hadvance := c.advance_spec d
      simp only [step]
      generalize c.advance d = result at hadvance ⊢
      cases hadvance with
      | ended => exact ⟨.of_eq rfl, rfl⟩
      | completed => exact ⟨.of_eq rfl, rfl⟩
      | blocked hkept => exact ⟨.of_eq hkept.deliveries_eq, hkept.capacity_eq⟩
      | moved hpassing =>
        refine ⟨fun e s hs => ?_, hpassing.capacity_eq⟩
        rw [hpassing.deliveries_eq, List.getElem?_modify, hs]
        split
        · exact ⟨_, rfl, rfl, rfl, List.tail_suffix _⟩
        · exact ⟨s, rfl, rfl, rfl, List.suffix_refl _⟩
    | _ => simp at hquiet

/-- No run changes the message or the selection of a send, nor how much a queue takes. -/
theorem started_run (c : Channel ℓ π) (events : List (ChannelEvent ℓ π)) :
    c.Started (c.run events) ∧ (c.run events).capacity = c.capacity := by
  induction events generalizing c with
  | nil => exact ⟨.of_eq rfl, rfl⟩
  | cons e rest ih =>
    obtain ⟨hstarted, hcapacity⟩ := started_step c e
    obtain ⟨hrest, hcapacity'⟩ := ih (c.step e)
    exact ⟨hstarted.trans hrest, hcapacity'.trans hcapacity⟩

end Channel

end MarketEngine
