import MarketEngine.Proofs.Channel.Completion
import MarketEngine.Proofs.Channel.Records
import MarketEngine.Proofs.Channel.Scheduling
import Mathlib.Data.List.Perm.Subperm
/-!
# Consumers that were there from the beginning

A consumer that subscribed before anything was sent, on a channel that nobody stops, is selected by
every send that its subscription covers (`Channel.Attends`). So it begins with each of these
messages at most once, and with all of them once nothing is left to do
(`Channel.Established.begunBy_eq`).
-/

namespace MarketEngine

variable {ℓ π : Type}

namespace Channel

/-! ## Who subscribed, and what was selected -/

/-- As whom a consumer subscribed, and to what. -/
def people (c : Channel ℓ π) : List (ℓ × Subscription) :=
  c.consumers.map fun k => (k.label, k.subscription)

/-- Whether the channel runs, who is registered and subscribed, and whom every send selected. -/
def register (c : Channel ℓ π) :
    Bool × List Nat × List (ℓ × Subscription) × List (Message π × List Nat) :=
  (c.running, c.registered, c.people, c.deliveries.map fun d => (d.message, d.selected))

/-- A change of a consumer's queue is not on the register. -/
theorem register_modifyConsumer (c : Channel ℓ π) (i : Nat) {f : Consumer ℓ π → Consumer ℓ π}
    (hf : ∀ k, ((f k).label, (f k).subscription) = (k.label, k.subscription)) :
    (c.modifyConsumer i f).register = c.register := by
  simp only [register, people, modifyConsumer,
    map_modify (g := fun k : Consumer ℓ π => (k.label, k.subscription)) hf]

/-- A send that goes past a consumer was selected for it at its start. -/
theorem register_pass (c : Channel ℓ π) (d : Nat) : (c.pass d).register = c.register := by
  have hsame := map_modify (g := fun s : Delivery π => (s.message, s.selected))
    (f := fun s => { s with remaining := s.remaining.tail }) (fun _ => rfl) c.deliveries d
  simp only [register, people, pass, modifyDelivery, hsame]

/-- A send that goes on selects nobody anew. -/
theorem register_advance (c : Channel ℓ π) (d : Nat) : (c.advance d).1.register = c.register := by
  unfold advance
  split
  · rfl
  · next s _ =>
    split
    · rfl
    · split
      · rfl
      · next i _ _ =>
        split
        · exact c.register_pass d
        · split
          · exact c.register_pass d
          · split
            · have hqueued : (c.modifyConsumer i fun k => { k with
                  queue := k.queue ++ [s.message], granted := k.granted.erase d }).register
                  = c.register := c.register_modifyConsumer i fun _ => rfl
              exact (register_pass _ d).trans hqueued
            · split
              · rfl
              · exact c.register_modifyConsumer i fun _ => rfl

/-- A consumer's turn is not on the register. -/
theorem register_take (c : Channel ℓ π) (i : Nat) : (c.take i).1.register = c.register := by
  unfold take
  split
  · rfl
  · split
    · rfl
    · split
      · exact c.register_modifyConsumer i fun _ => rfl
      · split
        · rfl
        · exact c.register_modifyConsumer i fun _ => rfl
        · exact c.register_modifyConsumer i fun _ => rfl

/-- Subscriptions and sends apart, steps leave the register as it was. -/
theorem register_step (c : Channel ℓ π) {labels : ℓ → Prop} {e : ChannelEvent ℓ π}
    (he : e.IsOrdinary labels) (hsubscribe : ∀ label s, e ≠ .subscribe label s)
    (hsend : ∀ m, e ≠ .send m) : (c.step e).register = c.register := by
  cases e with
  | subscribe label s => exact absurd rfl (hsubscribe label s)
  | send m => exact absurd rfl (hsend m)
  | advance d => exact c.register_advance d
  | take i => exact c.register_take i
  | finish i => exact c.register_modifyConsumer i fun _ => rfl
  | lineUp => rfl
  | _ => exact he.elim

/-- A consumer that subscribes is registered last, and was selected by no send so far. -/
theorem register_subscribe (c : Channel ℓ π) (label : ℓ) (s : Subscription) :
    (c.subscribe label s).1.register = (c.running, c.registered ++ [c.consumers.length],
      c.people ++ [(label, s)], c.deliveries.map fun d => (d.message, d.selected)) := by
  simp only [register, people, subscribe, List.map_append, List.map_cons, List.map_nil]

/-- A send on a running channel selects from the register. -/
theorem register_send (c : Channel ℓ π) (hrunning : c.running = true) (m : Message π) :
    ∃ flagged, (c.send m).1.register = (c.running, c.registered, c.people,
      c.deliveries.map (fun d => (d.message, d.selected)) ++ [(m, c.select m.key flagged)]) := by
  refine ⟨c.filter.willSend.evaluate.flagged, ?_⟩
  unfold send
  rw [if_pos hrunning]
  simp only [register, people, List.map_append, List.map_cons, List.map_nil]
  rfl

/-! ## A consumer from the beginning -/

/-- Nothing was sent yet on a running channel, and these are the consumers that subscribed. -/
structure Opened (c : Channel ℓ π) (people : List (ℓ × Subscription)) : Prop where
  running : c.running = true
  registered_eq : c.registered = List.range people.length
  people_eq : c.people = people
  deliveries_eq : c.deliveries = []

/-- An empty channel is open. -/
theorem opened_withProducer (queueSize filterSize : Nat) :
    (withProducer (empty queueSize filterSize) : Channel ℓ π).Opened [] := ⟨rfl, rfl, rfl, rfl⟩

/-- As long as nothing was sent, consumers subscribe to an open channel one after the other. -/
theorem Opened.subscribe {c : Channel ℓ π} {people : List (ℓ × Subscription)} (h : c.Opened people)
    (label : ℓ) (s : Subscription) : (c.subscribe label s).1.Opened (people ++ [(label, s)]) := by
  have hlength : c.consumers.length = people.length := by
    rw [← h.people_eq, Channel.people, List.length_map]
  refine ⟨h.running, ?_, ?_, h.deliveries_eq⟩
  · rw [List.length_append, List.length_singleton, List.range_succ, ← h.registered_eq, ← hlength]
    rfl
  · rw [← h.people_eq]
    simp only [Channel.people, Channel.subscribe, List.map_append, List.map_cons, List.map_nil]

/-- A consumer is registered on a running channel, and a send selected it if and only if its
subscription covers the message. -/
structure Attends (c : Channel ℓ π) (i : Nat) (label : ℓ) (s : Subscription) : Prop where
  running : c.running = true
  registered : i ∈ c.registered
  people : c.people[i]? = some (label, s)
  selected_iff : ∀ d ∈ c.deliveries, i ∈ d.selected ↔ s.covers d.message.key = true

namespace Attends

variable {c c' : Channel ℓ π} {i : Nat} {label : ℓ} {s : Subscription}

/-- Whether a consumer attends is read off the register. -/
theorem congr (h : c.Attends i label s) (hregister : c'.register = c.register) :
    c'.Attends i label s := by
  simp only [register, Prod.mk.injEq] at hregister
  obtain ⟨hrunning, hregistered, hpeople, hdeliveries⟩ := hregister
  refine ⟨hrunning.trans h.running, hregistered ▸ h.registered, hpeople ▸ h.people, fun d hd => ?_⟩
  have hmem : (d.message, d.selected) ∈ c'.deliveries.map fun d => (d.message, d.selected) :=
    List.mem_map.2 ⟨d, hd, rfl⟩
  rw [hdeliveries] at hmem
  obtain ⟨d', hd', heq⟩ := List.mem_map.1 hmem
  simp only [Prod.mk.injEq] at heq
  rw [← heq.1, ← heq.2]
  exact h.selected_iff d' hd'

/-- Who attends is there as it subscribed. -/
theorem exists_consumer (h : c.Attends i label s) :
    ∃ k, c.consumers[i]? = some k ∧ k.label = label ∧ k.subscription = s := by
  have hpeople := h.people
  rw [Channel.people, List.getElem?_map] at hpeople
  obtain ⟨k, hk, heq⟩ := Option.map_eq_some_iff.1 hpeople
  exact ⟨k, hk, (Prod.mk.inj heq).1, (Prod.mk.inj heq).2⟩

/-- That somebody else subscribes makes no difference to who attends. -/
theorem subscribe (h : c.Attends i label s) (label' : ℓ) (s' : Subscription) :
    (c.subscribe label' s').1.Attends i label s := by
  refine ⟨h.running, List.mem_append_left _ h.registered, ?_, h.selected_iff⟩
  have hregister := c.register_subscribe label' s'
  simp only [register, Prod.mk.injEq] at hregister
  rw [hregister.2.2.1, List.getElem?_append_left (List.getElem?_eq_some_iff.1 h.people).1]
  exact h.people

/-- A send selects who attends if and only if the subscription covers its message, as there is no
limit to the rate. -/
theorem send (h : c.Attends i label s) (hlimited : s.rateLimited = false) (m : Message π) :
    (c.send m).1.Attends i label s := by
  obtain ⟨k, hk, hlabel, hsubscription⟩ := h.exists_consumer
  obtain ⟨flagged, hregister⟩ := c.register_send h.running m
  simp only [register, Prod.mk.injEq] at hregister
  obtain ⟨hrunning, hregistered, hpeople, hdeliveries⟩ := hregister
  refine ⟨hrunning.trans h.running, hregistered ▸ h.registered, hpeople ▸ h.people, fun d hd => ?_⟩
  have hmem : (d.message, d.selected) ∈ (c.send m).1.deliveries.map
      fun d => (d.message, d.selected) := List.mem_map.2 ⟨d, hd, rfl⟩
  rw [hdeliveries, List.mem_append, List.mem_singleton] at hmem
  rcases hmem with hold | hnew
  · obtain ⟨d', hd', heq⟩ := List.mem_map.1 hold
    simp only [Prod.mk.injEq] at heq
    rw [← heq.1, ← heq.2]
    exact h.selected_iff d' hd'
  · -- the filter has no say, as the consumer is not rate-limited
    rw [Prod.mk.injEq] at hnew
    rw [hnew.1, hnew.2, mem_select hk h.registered, hsubscription, hlimited]
    simp

/-- No step of ordinary life ends attendance. -/
theorem step (h : c.Attends i label s) (hlimited : s.rateLimited = false) {labels : ℓ → Prop}
    {e : ChannelEvent ℓ π} (he : e.IsOrdinary labels) : (c.step e).Attends i label s := by
  cases e with
  | subscribe label' s' => exact h.subscribe label' s'
  | send m => exact h.send hlimited m
  | _ => exact h.congr (c.register_step he (by simp) (by simp))

/-- Nobody that is there from the beginning is left out as long as nobody stops the channel. -/
theorem reaches (h : c.Attends i label s) (hlimited : s.rateLimited = false) {labels : ℓ → Prop}
    (hreaches : c.Reaches (·.IsOrdinary labels) c') : c'.Attends i label s := by
  obtain ⟨events, hevents, rfl⟩ := hreaches
  exact List.foldlRecOn (motive := fun c : Channel ℓ π => c.Attends i label s) events _ h
    fun _ hc e he => hc.step hlimited (hevents e he)

end Attends

/-- Whoever subscribed before anything was sent attends. -/
theorem Opened.attends {c : Channel ℓ π} {people : List (ℓ × Subscription)} (h : c.Opened people)
    {i : Nat} {label : ℓ} {s : Subscription} (hi : people[i]? = some (label, s)) :
    c.Attends i label s where
  running := h.running
  registered := by
    rw [h.registered_eq, List.mem_range]
    exact (List.getElem?_eq_some_iff.1 hi).1
  people := by
    rw [h.people_eq]
    exact hi
  selected_iff := by simp [h.deliveries_eq]

/-- Those who subscribe later have labels of this kind. -/
theorem Reaches.people_eq {c c' : Channel ℓ π} {labels : ℓ → Prop} (hrunning : c.running = true)
    (h : c.Reaches (·.IsOrdinary labels) c') :
    ∃ later, c'.people = c.people ++ later ∧ ∀ p ∈ later, labels p.1 := by
  obtain ⟨events, hevents, rfl⟩ := h
  have hrun : (c.run events).running = true ∧
      ∃ later, (c.run events).people = c.people ++ later ∧ ∀ p ∈ later, labels p.1 := by
    refine List.foldlRecOn (motive := fun c' : Channel ℓ π => c'.running = true ∧
      ∃ later, c'.people = c.people ++ later ∧ ∀ p ∈ later, labels p.1) events _
      ⟨hrunning, [], (List.append_nil _).symm, List.forall_mem_nil _⟩ ?_
    rintro c' ⟨hrunning, later, hpeople, hlater⟩ e he
    have hordinary := hevents e he
    cases e with
    | subscribe label s =>
      have hregister := c'.register_subscribe label s
      simp only [register, Prod.mk.injEq] at hregister
      refine ⟨hregister.1.trans hrunning, later ++ [(label, s)], ?_, fun p hp => ?_⟩
      · rw [Channel.step, hregister.2.2.1, hpeople, List.append_assoc]
      · rcases List.mem_append.1 hp with hp | hp
        · exact hlater p hp
        · rw [List.mem_singleton.1 hp]
          exact hordinary
    | send m =>
      obtain ⟨flagged, hregister⟩ := c'.register_send hrunning m
      simp only [register, Prod.mk.injEq] at hregister
      exact ⟨hregister.1.trans hrunning, later, hregister.2.2.1.trans hpeople, hlater⟩
    | _ =>
      have hregister := c'.register_step hordinary (by simp) (by simp)
      simp only [register, Prod.mk.injEq] at hregister
      exact ⟨hregister.1.trans hrunning, later, hregister.2.2.1.trans hpeople, hlater⟩
  exact hrun.2

end Channel

/-! ## What it begins with -/

/-- The messages of the sends that selected a consumer, by the numbers of these sends. -/
theorem ChannelRun.exists_selecting (r : ChannelRun ℓ π) (i : Nat) :
    ∃ sends : List Nat, sends.Nodup ∧
      (∀ d, d ∈ sends ↔ ∃ s, r.channel.deliveries[d]? = some s ∧ i ∈ s.selected) ∧
      sends.map r.channel.message?
        = ((r.channel.deliveries.filter (i ∈ ·.selected)).map (·.message)).map some := by
  refine ⟨(r.channel.deliveries.zipIdx.filter (i ∈ ·.1.selected)).map (·.2), ?_, fun d => ?_, ?_⟩
  · have hnodup : (r.channel.deliveries.zipIdx.map (·.2)).Nodup := by
      rw [List.zipIdx_map_snd]
      exact List.nodup_range'
    exact hnodup.sublist (List.filter_sublist.map _)
  · simp [List.mk_mem_zipIdx_iff_getElem?]
  · have hmessage : ∀ p ∈ r.channel.deliveries.zipIdx.filter (i ∈ ·.1.selected),
        r.channel.message? p.2 = some p.1.message := by
      rintro ⟨s, d⟩ hp
      have hs := List.mk_mem_zipIdx_iff_getElem?.1 (List.mem_filter.1 hp).1
      rw [Channel.message?, hs, Option.map_some]
    have hfilter : (r.channel.deliveries.zipIdx.filter (i ∈ ·.1.selected)).map (·.1)
        = r.channel.deliveries.filter (i ∈ ·.selected) := by
      conv_rhs => rw [← List.zipIdx_map_fst 0 r.channel.deliveries, List.filter_map]
      rfl
    rw [← hfilter, List.map_map, List.map_map, List.map_map]
    exact List.map_congr_left hmessage

namespace Channel.Attends

variable {r : ChannelRun ℓ π} {i : Nat} {label : ℓ} {s : Subscription} {k : Consumer ℓ π}

/-- The messages of the sends that selected who attends are those that its subscription covers. -/
theorem messages_eq (h : r.channel.Attends i label s) :
    (r.channel.deliveries.filter (i ∈ ·.selected)).map (·.message)
      = r.channel.messages.filter (s.covers ·.key) := by
  rw [messages, List.filter_map]
  congr 1
  apply List.filter_congr
  intro d hd
  rw [Function.comp_apply, ← Bool.coe_iff_coe, decide_eq_true_iff]
  exact h.selected_iff d hd

/-- A consumer begins with each message that its subscription covers once at most. -/
theorem begun_subperm (h : r.channel.Attends i label s) (hsound : r.Sound)
    (hk : r.channel.consumers[i]? = some k) (hcanceled : k.canceled = false) :
    k.begun.Subperm (r.channel.messages.filter (s.covers ·.key)) := by
  obtain ⟨sends, -, hmem, hsends⟩ := r.exists_selecting i
  have hpassed : (r.passedTo i).Subperm sends := by
    refine List.subperm_of_subset (hsound.nodup_passedTo i) fun d hd => ?_
    obtain ⟨delivery, hdelivery, hselected, -⟩ := hsound.mem_passedTo_iff.1 hd
    exact (hmem d).2 ⟨delivery, hdelivery, hselected⟩
  have hcontents : k.contents.Subperm (r.channel.messages.filter (s.covers ·.key)) := by
    rw [← h.messages_eq, ← List.map_subperm_map_iff (fun _ _ => Option.some.inj), ← hsends,
      (hsound.serves hk hcanceled).contents_eq]
    obtain ⟨some, hperm, hsublist⟩ := hpassed
    exact ⟨_, hperm.map _, hsublist.map _⟩
  exact (List.sublist_append_left k.begun k.queue).subperm.trans hcontents

/-- Once nothing is left to do, the consumer has begun with all of them. -/
theorem begun_perm (h : r.channel.Attends i label s) (hsound : r.Sound)
    (hdrained : r.channel.Drained) (hk : r.channel.consumers[i]? = some k)
    (hcanceled : k.canceled = false) :
    k.begun.Perm (r.channel.messages.filter (s.covers ·.key)) := by
  obtain ⟨sends, hnodup, hmem, hsends⟩ := r.exists_selecting i
  -- no send is under way, so all that selected the consumer went past it
  have hpassed : (r.passedTo i).Perm sends := by
    refine (List.perm_ext_iff_of_nodup (hsound.nodup_passedTo i) hnodup).2 fun d => ?_
    rw [hsound.mem_passedTo_of_rest hdrained.underWay, hmem]
  -- at rest nothing is left in the queue
  have hbegun : k.begun = k.contents := by
    rw [Consumer.contents, (hdrained.consumers k (List.mem_of_getElem? hk)).1, List.append_nil]
    rfl
  rw [hbegun, ← h.messages_eq, ← List.map_perm_map_iff (fun _ _ => Option.some.inj), ← hsends,
    (hsound.serves hk hcanceled).contents_eq]
  exact hpassed.map _

end Channel.Attends

/-! ## From the opening on -/

namespace Channel

/-- The channel has a history from its opening on. These consumers were there before anything was
sent, and those who came later have labels of this kind. -/
structure Established (c : Channel ℓ π) (people : List (ℓ × Subscription)) (labels : ℓ → Prop) :
    Prop where
  sound : ∃ r : ChannelRun ℓ π, r.Sound ∧ r.channel = c
  attends : ∀ ⦃i : Nat⦄ ⦃label : ℓ⦄ ⦃s : Subscription⦄, people[i]? = some (label, s) →
    s.rateLimited = false → c.Attends i label s
  later : ∃ later, c.people = people ++ later ∧ ∀ p ∈ later, labels p.1

namespace Established

variable {c : Channel ℓ π} {people : List (ℓ × Subscription)} {labels : ℓ → Prop} {i : Nat}
  {label : ℓ}

/-- A consumer that was there from the beginning, and that nobody canceled, begins with every
message that its subscription covers, once. -/
theorem begunBy_eq (h : c.Established people labels) {s : Subscription}
    (hi : people[i]? = some (label, s)) (hlimited : s.rateLimited = false)
    (hcanceled : ∀ k ∈ c.consumers, k.canceled = false) :
    ∃ begun : List (Message π), c.begunBy i = begun.map (label, ·) ∧
      begun.Subperm (c.messages.filter (s.covers ·.key)) ∧
      (c.Drained → begun.Perm (c.messages.filter (s.covers ·.key))) := by
  have hattends := h.attends hi hlimited
  obtain ⟨r, hsound, rfl⟩ := h.sound
  obtain ⟨k, hk, hlabel, -⟩ := hattends.exists_consumer
  have hactive := hcanceled k (List.mem_of_getElem? hk)
  refine ⟨k.begun, ?_, hattends.begun_subperm hsound hk hactive,
    fun hdrained => hattends.begun_perm hsound hdrained hk hactive⟩
  rw [begunBy, hk, Option.elim_some, hlabel]

/-- Whoever begins with a message was there from the beginning, or is one of those who came
later. -/
theorem label_of_begunBy (h : c.Established people labels) {m : Message π}
    (hm : (label, m) ∈ c.begunBy i) :
    (∃ s, people[i]? = some (label, s)) ∨ people.length ≤ i ∧ labels label := by
  obtain ⟨k, hk, rfl⟩ := exists_of_mem_begunBy hm
  obtain ⟨later, hpeople, hlater⟩ := h.later
  have hperson : (people ++ later)[i]? = some (k.label, k.subscription) := by
    rw [← hpeople, Channel.people, List.getElem?_map, hk, Option.map_some]
  rw [List.getElem?_append] at hperson
  split at hperson
  · exact .inl ⟨_, hperson⟩
  · next hge => exact .inr ⟨Nat.le_of_not_lt hge, hlater _ (List.mem_of_getElem? hperson)⟩

end Established

end Channel

/-! ## Networks -/

namespace Network

variable {σ κ : Type} {n n' : Network ℓ π σ κ}

/-- Every channel has a history from its opening on. -/
def Sound (n : Network ℓ π σ κ) : Prop :=
  ∀ ⦃topic : Topic⦄ ⦃c : Channel ℓ π⦄, n.channel? topic = some c →
    ∃ r : ChannelRun ℓ π, r.Sound ∧ r.channel = c

/-- Each channel keeps its history in whatever happens in the network. -/
theorem Sound.reaches (h : n.Sound) {E : ChannelEvent ℓ π → Prop} (hreaches : n.Reaches E n')
    (hchannels : ∀ topic, ∃ c, n.channel? topic = some c) : n'.Sound := by
  intro topic c' hc'
  obtain ⟨c, hc⟩ := hchannels topic
  obtain ⟨c'', hc'', events, -, rfl⟩ := hreaches hc
  obtain rfl := Option.some.inj (hc''.symm.trans hc')
  obtain ⟨r, hr, rfl⟩ := h hc
  exact ⟨r.run events, hr.run events, r.channel_run events⟩

/-- Nothing was sent yet on any channel, and these are the consumers that subscribed. -/
def Opened (n : Network ℓ π σ κ) (people : Topic → List (ℓ × Subscription)) : Prop :=
  ∀ topic, ∃ c, n.channel? topic = some c ∧ c.Opened (people topic)

/-- Who subscribes on one channel is nobody on the others. -/
theorem Opened.subscribe {people : Topic → List (ℓ × Subscription)} (h : n.Opened people)
    (topic : Topic) (label : ℓ) (s : Subscription) :
    (n.subscribe topic label s).Opened fun topic' =>
      people topic' ++ if topic' = topic then [(label, s)] else [] := by
  intro topic'
  obtain ⟨c, hc, hopened⟩ := h topic
  rw [Network.subscribe, modify, hc, channel?_put]
  by_cases htopic : topic' = topic
  · subst htopic
    have hsubscribed := hopened.subscribe label s
    simp only [beq_self_eq_true, if_true]
    exact ⟨_, rfl, hsubscribed.running, hsubscribed.registered_eq, hsubscribed.people_eq,
      hsubscribed.deliveries_eq⟩
  · obtain ⟨c', hc', hopened'⟩ := h topic'
    exact ⟨c', by simp [htopic, hc'], by simpa [htopic] using hopened'⟩

/-- Whatever happens then, as long as nobody stops a channel. -/
theorem Opened.established {people : Topic → List (ℓ × Subscription)} (h : n.Opened people)
    (hsound : n.Sound) {labels : ℓ → Prop} (hreaches : n.Reaches (·.IsOrdinary labels) n')
    (topic : Topic) : (n'.channelAt topic).Established (people topic) labels := by
  obtain ⟨c, hc, hopened⟩ := h topic
  obtain ⟨c', hc', hsteps⟩ := hreaches hc
  have hchannels : ∀ topic, ∃ c, n.channel? topic = some c := fun topic =>
    (h topic).imp fun _ hc => hc.1
  obtain ⟨later, hpeople, hlater⟩ := hsteps.people_eq hopened.running
  rw [channelAt, hc', Option.getD_some]
  refine ⟨hsound.reaches hreaches hchannels hc',
    fun i label s hi hlimited => (hopened.attends hi).reaches hlimited hsteps, later, ?_, hlater⟩
  rw [hpeople, hopened.people_eq]

end Network

end MarketEngine
