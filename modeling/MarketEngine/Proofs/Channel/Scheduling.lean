import MarketEngine.Channel.Gated
import MarketEngine.Proofs.Channel.Delivery
import MarketEngine.Proofs.Channel.Stable
/-!
# Networks run their channels

Whatever a network does, each of its channels goes through atomic steps (`Network.Reaches`). So what
holds in every run of a channel holds of the channels of a network at any time, however its
consumers are scheduled and wherever their callbacks wait. The channel with gated consumers is the
case where a callback ends once there is a permit (`GatedChannel.exists_events`).
-/

namespace MarketEngine

variable {ℓ π σ κ : Type}

/-- A step of a channel that nobody stops. Those who subscribe have labels of this kind. -/
def ChannelEvent.IsOrdinary (labels : ℓ → Prop) : ChannelEvent ℓ π → Prop
  | .subscribe label _ => labels label
  | .send _ => True
  | .advance _ => True
  | .take _ => True
  | .finish _ => True
  | .lineUp => True
  | _ => False

/-- Some steps of this kind lead from one state of a channel to the other. -/
def Channel.Reaches (E : ChannelEvent ℓ π → Prop) (c c' : Channel ℓ π) : Prop :=
  ∃ events : List (ChannelEvent ℓ π), (∀ e ∈ events, E e) ∧ c' = c.run events

namespace Channel.Reaches

variable {E : ChannelEvent ℓ π → Prop} {c c' c'' : Channel ℓ π}

theorem refl (c : Channel ℓ π) : c.Reaches E c := ⟨[], by simp, rfl⟩

/-- One step of the kind leads to the state after it. -/
theorem step (c : Channel ℓ π) {e : ChannelEvent ℓ π} (he : E e) : c.Reaches E (c.step e) :=
  ⟨[e], by simpa using he, rfl⟩

/-- Some steps lead on from where others have led. -/
theorem trans (h : c.Reaches E c') (h' : c'.Reaches E c'') : c.Reaches E c'' := by
  obtain ⟨events, hevents, rfl⟩ := h
  obtain ⟨events', hevents', rfl⟩ := h'
  refine ⟨events ++ events', fun e he => ?_, List.foldl_append.symm⟩
  rcases List.mem_append.1 he with he | he
  · exact hevents e he
  · exact hevents' e he

end Channel.Reaches

namespace Network

/-- Every channel of the one network is there in the other, some steps of this kind later. -/
def Reaches (E : ChannelEvent ℓ π → Prop) (n n' : Network ℓ π σ κ) : Prop :=
  ∀ ⦃topic : Topic⦄ ⦃c : Channel ℓ π⦄, n.channel? topic = some c →
    ∃ c', n'.channel? topic = some c' ∧ c.Reaches E c'

section Reaches

variable {E : ChannelEvent ℓ π → Prop} {n n' n'' : Network ℓ π σ κ}

/-- Where the channels are the same no steps were needed. -/
theorem Reaches.of_eq (h : n'.channels = n.channels) : n.Reaches E n' := fun topic c hc =>
  ⟨c, by rw [channel?, h]; exact hc, .refl c⟩

theorem Reaches.refl (n : Network ℓ π σ κ) : n.Reaches E n := of_eq rfl

/-- Channel by channel, some steps lead on from where others have led. -/
theorem Reaches.trans (h : n.Reaches E n') (h' : n'.Reaches E n'') : n.Reaches E n'' := by
  intro topic c hc
  obtain ⟨c', hc', hreaches⟩ := h hc
  obtain ⟨c'', hc'', hreaches'⟩ := h' hc'
  exact ⟨c'', hc'', hreaches.trans hreaches'⟩

variable (hE : ∀ {e : ChannelEvent ℓ π}, e.IsOrdinary (fun _ => False) → E e)
include hE

/-- A channel is put back after some steps. -/
theorem reaches_put {topic : Topic} {c c' : Channel ℓ π} (hc : n.channel? topic = some c)
    (hreaches : c.Reaches E c') : n.Reaches E (n.put topic c') := by
  intro topic' old hold
  rw [channel?_put]
  by_cases htopic : topic' = topic
  · subst htopic
    obtain rfl := Option.some.inj (hc.symm.trans hold)
    have hlined : E (.lineUp : ChannelEvent ℓ π) := hE trivial
    exact ⟨c'.step .lineUp, by simp [Channel.step], hreaches.trans (.step c' hlined)⟩
  · exact ⟨old, by simp [htopic, hold], .refl old⟩

/-- What leads one channel on leads on the network. -/
theorem reaches_modify (n : Network ℓ π σ κ) (topic : Topic) {f : Channel ℓ π → Channel ℓ π}
    (hf : ∀ c : Channel ℓ π, c.Reaches E (f c)) : n.Reaches E (n.modify topic f) := by
  unfold modify
  split
  · next c hc => exact reaches_put hE hc (hf c)
  · exact .refl n

/-- A subscription is one step on its channel. -/
theorem reaches_subscribe (n : Network ℓ π σ κ) (topic : Topic) {label : ℓ} {s : Subscription}
    (hlabel : E (.subscribe label s)) : n.Reaches E (n.subscribe topic label s) :=
  reaches_modify hE n topic fun c => .step c hlabel

/-- A send that starts is one step on its channel. -/
theorem reaches_send (n : Network ℓ π σ κ) (topic : Topic) (m : Message π) :
    n.Reaches E (n.send topic m).1 := by
  unfold send
  split
  · next c hc => exact reaches_put hE hc (.step c (e := .send m) (hE trivial))
  · exact .refl n

/-- A send that goes on is one step on its channel. -/
theorem reaches_advance (n : Network ℓ π σ κ) (t : Ticket) : n.Reaches E (n.advance t).1 := by
  unfold advance
  split
  · next c hc => exact reaches_put hE hc (.step c (e := .advance t.delivery) (hE trivial))
  · exact .refl n

/-- Who goes on with a message may finish it on its channel and start a send on another. -/
theorem reaches_proceed (n : Network ℓ π σ κ) (a : Address) (next : Next π κ × σ) :
    n.Reaches E (n.proceed a next) := by
  obtain ⟨next, shared⟩ := next
  cases next with
  | done failure =>
    have hpending : n.Reaches E (setPending { n with shared } a none) := .of_eq rfl
    exact hpending.trans
      (reaches_modify hE _ a.topic fun c => .step c (e := .finish a.consumer) (hE trivial))
  | send topic message rest =>
    have hshared : n.Reaches E { n with shared } := .of_eq rfl
    exact (hshared.trans (reaches_send hE _ topic message)).trans (.of_eq rfl)
  | wait rest => exact .of_eq rfl

/-- Who takes a message does so on its channel, and begins with it. -/
theorem reaches_takeNext (h : Handlers ℓ π σ κ) (n : Network ℓ π σ κ) (a : Address) :
    n.Reaches E (n.takeNext h a) := by
  unfold takeNext
  split
  · exact .of_eq rfl
  · next c hc =>
    have htake : n.Reaches E (n.put a.topic (c.take a.consumer).1) :=
      reaches_put hE hc (.step c (e := .take a.consumer) (hE trivial))
    rcases htaken : c.take a.consumer with ⟨c', taken⟩
    rw [htaken] at htake
    cases taken with
    | none => exact htake.trans (.of_eq rfl)
    | some m =>
      cases hk : c.consumers[a.consumer]? with
      | none => exact htake.trans (.of_eq rfl)
      | some k => exact htake.trans (reaches_proceed hE _ a _)

/-- Whatever moves, the channels go through steps. -/
theorem stable_reaches (h : Handlers ℓ π σ κ) (n : Network ℓ π σ κ) : Stable h (n.Reaches E) where
  line hn _ _ := hn.trans (.of_eq rfl)
  advance hn t := hn.trans (reaches_advance hE _ t)
  takeNext _ hn := hn.trans (reaches_takeNext hE h _ _)
  goOn _ hn := hn.trans (reaches_proceed hE _ _ _)

end Reaches

end Network

/-! ## Gated consumers -/

/-- What can happen to a channel with gated consumers. -/
inductive GatedStep where
  | subscribe (r : Recorder) (s : Subscription)
  | issueProducer
  /-- Somebody who has the producer sends. -/
  | send (key : RoutingKey) (n : Nat)
  | addPermits (id : String) (permits : Nat)
  | lookup (key : RoutingKey)
  | stopConsumer (id : String)
  | remove (id : String)
  | stop
  | start
  /-- Whoever is first in line goes on. -/
  | go
  /-- All go on until nobody can. -/
  | settle
  deriving Repr

namespace GatedChannel

def step (g : GatedChannel) : GatedStep → GatedChannel
  | .subscribe r s => g.subscribe r s
  | .issueProducer => g.issueProducer?.getD g
  | .send key n => (g.send? key n).getD g
  | .addPermits id permits => g.addPermits id permits
  | .lookup key => (g.lookup key).1
  | .stopConsumer id => g.modifyConsumer id Channel.stopConsumer
  | .remove id => g.modifyConsumer id Channel.remove
  | .stop => g.modify topic Channel.stop
  | .start => g.modify topic Channel.start
  | .go => Network.step Recorder.handlers g
  | .settle => g.settle

def run (g : GatedChannel) (steps : List GatedStep) : GatedChannel := steps.foldl step g

/-- What leads on the channel for each consumer does so for the one with the name. -/
theorem reaches_modifyConsumer (g : GatedChannel) (id : String)
    {f : Channel Recorder Nat → Nat → Channel Recorder Nat}
    (hf : ∀ (c : Channel Recorder Nat) i, c.Reaches (fun _ => True) (f c i)) :
    Network.Reaches (fun _ => True) g (g.modifyConsumer id f) := by
  unfold modifyConsumer
  split
  · next i _ => exact Network.reaches_modify (fun _ => trivial) g topic fun c => hf c i
  · exact .refl g

/-- The channel is put back after a step of its own. -/
theorem reaches_putChannel (g : GatedChannel) {e : ChannelEvent Recorder Nat}
    {c' : Channel Recorder Nat} (hstep : g.channel.step e = c') :
    Network.Reaches (fun _ => True) g (g.put topic c') := by
  intro topic' c hc
  by_cases htopic : topic' = topic
  · subst htopic
    have hchannel : g.channel = c := by rw [channel, hc, Option.getD_some]
    rw [← hstep, hchannel]
    exact Network.reaches_put (fun _ => trivial) hc (.step c trivial) hc
  · refine ⟨c, ?_, .refl c⟩
    rw [Network.channel?_put, if_neg (by simpa using htopic), hc]

/-- Every step with gated consumers is made of steps of the channel. -/
theorem reaches_step (g : GatedChannel) (e : GatedStep) :
    Network.Reaches (fun _ => True) g (g.step e) := by
  have hmoves := Network.stable_reaches (E := fun _ => True) (fun _ => trivial) Recorder.handlers g
  cases e with
  | subscribe r s =>
    exact (Network.reaches_subscribe (fun _ => trivial) g topic trivial).trans (.of_eq rfl)
  | issueProducer =>
    simp only [step, issueProducer?]
    cases hissue : g.channel.issueProducer with
    | none => exact .refl g
    | some c' =>
      refine reaches_putChannel g (e := .issueProducer) ?_
      rw [Channel.step, hissue, Option.getD_some]
  | send key n =>
    simp only [step, send?]
    split
    · exact (Network.reaches_send (fun _ => trivial) g topic ⟨key, n⟩).trans
        (.of_eq (Network.channels_enqueue _ _))
    · exact .refl g
  -- permits are no matter of the channel
  | addPermits id permits =>
    simp only [step, addPermits]
    refine Network.Reaches.of_eq ?_
    split
    · split
      · rw [Network.channels_enqueue]
      · rfl
    · rfl
  | lookup key =>
    exact reaches_putChannel g (e := .lookup key) rfl
  | stopConsumer id =>
    exact reaches_modifyConsumer g id fun c i => .step c (e := .stopConsumer i) trivial
  | remove id => exact reaches_modifyConsumer g id fun c i => .step c (e := .remove i) trivial
  | stop =>
    exact Network.reaches_modify (fun _ => trivial) g topic fun c => .step c (e := .stop) trivial
  | start =>
    exact Network.reaches_modify (fun _ => trivial) g topic fun c => .step c (e := .start) trivial
  | go => exact hmoves.step (.refl g)
  | settle => exact hmoves.settle (.refl g)

/-- Whatever is done with gated consumers, the channel only takes steps of its own. -/
theorem reaches_run (g : GatedChannel) (steps : List GatedStep) :
    Network.Reaches (fun _ => True) g (g.run steps) := by
  induction steps generalizing g with
  | nil => exact .refl g
  | cons e rest ih => exact (reaches_step g e).trans (ih _)

/-- Whatever happens to a channel with gated consumers is a run of the channel. -/
theorem exists_events (queueSize filterSize : Nat) (steps : List GatedStep) :
    ∃ events, ((ChannelRun.opening queueSize filterSize).run events).channel
      = ((empty queueSize filterSize).run steps).channel := by
  have hopening : Network.channel? (empty queueSize filterSize) topic
      = some (.empty queueSize filterSize) := by
    simp [Network.channel?, empty, Table.get?]
  obtain ⟨c, hc, events, -, rfl⟩ := reaches_run (empty queueSize filterSize) steps hopening
  refine ⟨events, ?_⟩
  rw [ChannelRun.channel_run, channel, hc, Option.getD_some]
  rfl

end GatedChannel

end MarketEngine
