import MarketEngine.Proofs.Channel.Cancellation
/-!
# Registered consumers

A consumer on the register of a running channel that was not stopped by itself is alive exactly if
it subscribed while the channel was running, and a message that is sent to such a consumer is queued
with it (`Channel.registered_live`). A consumer that subscribes to a stopped channel is canceled
from the start, but stays on the register, also when the channel is started again
(`Channel.registered_unserved`).

No step but its cancellation changes how an uncanceled consumer stands (`Channel.standing_step`), so
what canceled a consumer is found in the history (`Channel.canceled_iff`).
-/

namespace MarketEngine

variable {ℓ π : Type}

/-! ## How a consumer stands -/

namespace Consumer

/-- The consumer was not told to stop, and its loop goes on. -/
structure Alive (k : Consumer ℓ π) : Prop where
  canceled : k.canceled = false
  running : k.running = true
  ended : k.ended = false

/-- What the consumer subscribed to, and all that counts for whether it is alive. -/
def standing (k : Consumer ℓ π) : Subscription × Bool × Bool × Bool :=
  (k.subscription, k.canceled, k.running, k.ended)

variable {k k' : Consumer ℓ π}

/-- Who stands as before is alive as before. -/
theorem Alive.of_standing (h : k.Alive) (hstanding : k'.standing = k.standing) : k'.Alive := by
  simp only [standing, Prod.mk.injEq] at hstanding
  obtain ⟨-, hcanceled, hrunning, hended⟩ := hstanding
  exact ⟨hcanceled.trans h.canceled, hrunning.trans h.running, hended.trans h.ended⟩

end Consumer

namespace Channel

variable {c : Channel ℓ π} {i : Nat} {k : Consumer ℓ π}

/-- A consumer stands as before when another one changes, or when it changes something else. -/
theorem standing_modifyConsumer (hk : c.consumers[i]? = some k) {j : Nat}
    {f : Consumer ℓ π → Consumer ℓ π} (hf : j = i → (f k).standing = k.standing) :
    ∃ k', (c.modifyConsumer j f).consumers[i]? = some k' ∧ k'.standing = k.standing := by
  simp only [modifyConsumer, List.getElem?_modify, hk, Option.map_eq_map, Option.map_some]
  refine ⟨_, rfl, ?_⟩
  split
  · next hij => exact hf hij
  · rfl

/-- A consumer stands as before when another one is stopped. -/
theorem standing_stopConsumer (hk : c.consumers[i]? = some k) {j : Nat} (hne : j ≠ i) :
    ∃ k', (c.stopConsumer j).consumers[i]? = some k' ∧ k'.standing = k.standing := by
  have hcancel : (c.cancel j).consumers[i]? = some k := by
    rw [consumers_cancel, List.getElem?_modify, hk]
    simp [hne]
  exact standing_modifyConsumer hcancel fun hij => absurd hij hne

/-- A consumer stands as before when a send goes on: queues do not count. -/
theorem standing_advance (hk : c.consumers[i]? = some k) (d : Nat) :
    ∃ k', (c.advance d).1.consumers[i]? = some k' ∧ k'.standing = k.standing := by
  unfold advance
  split
  · exact ⟨k, hk, rfl⟩
  · next s _ =>
    split
    · exact ⟨k, hk, rfl⟩
    · split
      · exact ⟨k, hk, rfl⟩
      · next j _ _ =>
        split
        · exact ⟨k, hk, rfl⟩
        · split
          · exact ⟨k, hk, rfl⟩
          · split
            · exact standing_modifyConsumer (j := j) (f := fun k =>
                { k with queue := k.queue ++ [s.message], granted := k.granted.erase d }) hk
                fun _ => rfl
            · split
              · exact ⟨k, hk, rfl⟩
              · exact standing_modifyConsumer hk fun _ => rfl

/-- A turn ends no consumer but a canceled one. -/
theorem standing_take (hk : c.consumers[i]? = some k) (hcanceled : k.canceled = false) (j : Nat) :
    ∃ k', (c.take j).1.consumers[i]? = some k' ∧ k'.standing = k.standing := by
  unfold take
  split
  · exact ⟨k, hk, rfl⟩
  · next k₀ hk₀ =>
    split
    · exact ⟨k, hk, rfl⟩
    · split
      · next hcanceled₀ =>
        refine standing_modifyConsumer hk fun hij => ?_
        rw [hij, hk, Option.some.injEq] at hk₀
        rw [← hk₀, hcanceled] at hcanceled₀
        exact absurd hcanceled₀ Bool.false_ne_true
      · split
        · exact ⟨k, hk, rfl⟩
        · exact standing_modifyConsumer hk fun _ => rfl
        · next m queue d waiting _ _ =>
          exact standing_modifyConsumer (j := j) (f := fun k =>
            { k with queue, held := some m, waiting, granted := k.granted ++ [d] }) hk fun _ => rfl

/-- A step that does not cancel an uncanceled consumer leaves it as it stands. -/
theorem standing_step (hk : c.consumers[i]? = some k) (hcanceled : k.canceled = false)
    {e : ChannelEvent ℓ π} (he : ¬c.Cancels i e) :
    ∃ k', (c.step e).consumers[i]? = some k' ∧ k'.standing = k.standing := by
  cases e with
  | subscribe label subscription =>
    have hlt := (List.getElem?_eq_some_iff.1 hk).1
    exact ⟨k, (List.getElem?_append_left hlt).trans hk, rfl⟩
  | lookup key => exact ⟨k, hk, rfl⟩
  | issueProducer =>
    rw [step_issueProducer]
    exact ⟨k, hk, rfl⟩
  | send m =>
    obtain ⟨selected, hsend⟩ := c.send_spec m
    exact ⟨k, by rw [step, hsend.consumers_eq, hk], rfl⟩
  | advance d => exact standing_advance hk d
  | take j => exact standing_take hk hcanceled j
  | finish j => exact standing_modifyConsumer hk fun _ => rfl
  | stopConsumer j => exact standing_stopConsumer hk fun hij => he (hij ▸ .stopConsumer)
  | remove j => exact standing_stopConsumer hk fun hij => he (hij ▸ .remove)
  | stop =>
    have hstopped : ¬c.running = true := fun hrunning => he (.stop hrunning)
    exact ⟨k, by rw [step, stop, if_neg hstopped, hk], rfl⟩
  | start =>
    refine ⟨k, ?_, rfl⟩
    rw [step, start]
    split <;> exact hk
  | lineUp => exact ⟨k, hk, rfl⟩

/-- Whether the event is neither a stop of the channel nor of the consumer, nor its removal. -/
def Spares (i : Nat) (e : ChannelEvent ℓ π) : Prop :=
  e ≠ .stop ∧ e ≠ .stopConsumer i ∧ e ≠ .remove i

/-- Nothing but a stop or a removal cancels a consumer. -/
theorem Spares.not_cancels {e : ChannelEvent ℓ π} (h : Spares i e) : ¬c.Cancels i e := by
  intro he
  cases he with
  | stopConsumer => exact h.2.1 rfl
  | remove => exact h.2.2 rfl
  | stop => exact h.1 rfl

/-- A consumer that nobody stops or removes stays alive. -/
theorem alive_run (hk : c.consumers[i]? = some k) (halive : k.Alive)
    {later : List (ChannelEvent ℓ π)} (hlater : ∀ e ∈ later, Spares i e) :
    ∃ k', (c.run later).consumers[i]? = some k' ∧ k'.Alive := by
  induction later generalizing c k with
  | nil => exact ⟨k, hk, halive⟩
  | cons e later ih =>
    have he := (hlater e List.mem_cons_self).not_cancels (c := c)
    obtain ⟨k', hk', hstanding⟩ := standing_step hk halive.canceled he
    exact ih hk' (halive.of_standing hstanding) fun e he => hlater e (List.mem_cons_of_mem _ he)

/-! ## What happened in the course of a run -/

/-- At some moment of a run, something of this kind happens. -/
def Happens (p : Channel ℓ π → ChannelEvent ℓ π → Prop) (c : Channel ℓ π)
    (events : List (ChannelEvent ℓ π)) : Prop :=
  ∃ before e after, events = before ++ e :: after ∧ p (c.run before) e

/-- A consumer that is there is stopped by itself. -/
def StopsAlone (i : Nat) (c : Channel ℓ π) (e : ChannelEvent ℓ π) : Prop :=
  e = .stopConsumer i ∧ i < c.consumers.length

/-- A consumer subscribes while the channel is stopped. -/
def SubscribesIdle (i : Nat) (c : Channel ℓ π) (e : ChannelEvent ℓ π) : Prop :=
  (∃ label subscription, e = .subscribe label subscription) ∧ c.consumers.length = i ∧
    c.running = false

/-- The last event of a run comes to what the others left. -/
theorem run_concat (c : Channel ℓ π) (events : List (ChannelEvent ℓ π)) (e : ChannelEvent ℓ π) :
    c.run (events ++ [e]) = (c.run events).step e :=
  List.foldl_concat ..

section Happens

variable {p : Channel ℓ π → ChannelEvent ℓ π → Prop} {events : List (ChannelEvent ℓ π)}

/-- With one more event, something happened before or happens now. -/
theorem happens_concat {e : ChannelEvent ℓ π} :
    Happens p c (events ++ [e]) ↔ Happens p c events ∨ p (c.run events) e := by
  constructor
  · rintro ⟨before, e', after, hevents, hp⟩
    rcases List.eq_nil_or_concat after with rfl | ⟨after, last, rfl⟩
    · obtain ⟨rfl, he⟩ := List.append_inj' hevents rfl
      rw [List.cons.injEq] at he
      exact .inr (he.1 ▸ hp)
    · rw [List.concat_eq_append, ← List.cons_append, ← List.append_assoc] at hevents
      exact .inl ⟨before, e', after, (List.append_inj' hevents rfl).1, hp⟩
  · rintro (⟨before, e', after, rfl, hp⟩ | hp)
    · exact ⟨before, e', after ++ [e], by simp, hp⟩
    · exact ⟨events, e, [], rfl, hp⟩

/-- Consumers come, and none is forgotten. -/
theorem length_le_step (c : Channel ℓ π) (e : ChannelEvent ℓ π) :
    c.consumers.length ≤ (c.step e).consumers.length := by
  by_contra hlt
  rw [Nat.not_le] at hlt
  obtain ⟨k', hk', -⟩ := exists_after c e (List.getElem?_eq_getElem hlt)
  exact absurd (List.getElem?_eq_some_iff.1 hk').1 (Nat.lt_irrefl _)

/-- What happens in a run happens in one of its events. -/
theorem Happens.exists_mem (h : Happens p c events) : ∃ e ∈ events, ∃ c, p c e := by
  obtain ⟨before, e, after, rfl, hp⟩ := h
  exact ⟨e, by simp, _, hp⟩

/-- A consumer that was there at some moment is there at the end. -/
theorem Happens.lt_length (h : Happens p c events)
    (hp : ∀ c e, p c e → i < (step c e).consumers.length) :
    i < (c.run events).consumers.length := by
  obtain ⟨before, e, after, rfl, hbefore⟩ := h
  have hrun : c.run (before ++ e :: after) = ((c.run before).step e).run after := List.foldl_append
  have hafter : ∀ (after : List (ChannelEvent ℓ π)) (c : Channel ℓ π),
      c.consumers.length ≤ (c.run after).consumers.length := by
    intro after
    induction after with
    | nil => exact fun c => Nat.le_refl _
    | cons e after ih => exact fun c => Nat.le_trans (length_le_step c e) (ih (c.step e))
  rw [hrun]
  exact Nat.lt_of_lt_of_le (hp _ _ hbefore) (hafter after _)

end Happens

/-- Who is stopped is there. -/
theorem StopsAlone.lt_length {e : ChannelEvent ℓ π} (h : StopsAlone i c e) :
    i < (c.step e).consumers.length :=
  Nat.lt_of_lt_of_le h.2 (length_le_step c e)

/-- Who subscribes is there from then on. -/
theorem SubscribesIdle.lt_length {e : ChannelEvent ℓ π} (h : SubscribesIdle i c e) :
    i < (c.step e).consumers.length := by
  obtain ⟨⟨label, subscription, rfl⟩, rfl, -⟩ := h
  simp [step, subscribe]

/-! ## Who is on the register -/

/-- Only a subscription makes for another consumer. -/
theorem length_step (c : Channel ℓ π) {e : ChannelEvent ℓ π}
    (hsubscribe : ∀ label subscription, e ≠ .subscribe label subscription) :
    (c.step e).consumers.length = c.consumers.length := by
  by_cases hstop : e = .stop
  · rw [hstop]
    exact (kept_stop c).length_eq
  · by_cases hstart : e = .start
    · rw [hstart]
      exact (kept_start c).length_eq
    · exact (evolves_step c hsubscribe hstop hstart).length_eq

/-- Whoever was there is on the register only if it was on it before. -/
theorem mem_registered_of_step (hlt : i < c.consumers.length) {e : ChannelEvent ℓ π}
    (hi : i ∈ (c.step e).registered) : i ∈ c.registered := by
  by_contra hnot
  have hforgotten : c.Forgotten c.deliveries.length i :=
    ⟨hlt, hnot, fun d s hd hs => absurd (List.getElem?_eq_some_iff.1 hs).1 (Nat.not_lt.2 hd)⟩
  exact (hforgotten.step e).not_registered hi

/-- A consumer that stays on the register is canceled by being stopped itself, and not otherwise. -/
theorem canceled_step (h : c.Attached) (hk : c.consumers[i]? = some k) {e : ChannelEvent ℓ π}
    (hi : i ∈ (c.step e).registered) {k' : Consumer ℓ π}
    (hk' : (c.step e).consumers[i]? = some k') :
    k'.canceled = true ↔ k.canceled = true ∨ e = .stopConsumer i := by
  constructor
  · intro hcanceled'
    by_cases he : c.Cancels i e
    · exact .inr (by_contra fun hne => (he.forgotten hk hne).not_registered hi)
    · refine .inl (by_contra fun hcanceled => ?_)
      rw [Bool.not_eq_true] at hcanceled
      obtain ⟨k'', hk'', hstanding⟩ := standing_step hk hcanceled he
      obtain rfl := Option.some.inj (hk''.symm.trans hk')
      simp only [Consumer.standing, Prod.mk.injEq] at hstanding
      rw [hstanding.2.1, hcanceled] at hcanceled'
      exact Bool.false_ne_true hcanceled'
  · rintro (hcanceled | rfl)
    · obtain ⟨k'', hk'', hchanges⟩ := exists_after c e hk
      obtain rfl := Option.some.inj (hk''.symm.trans hk')
      exact hchanges.frame.2 hcanceled
    · obtain ⟨k'', hk'', hdead⟩ := (Cancels.stopConsumer : c.Cancels i _).dead h hk
      obtain rfl := Option.some.inj (hk''.symm.trans hk')
      exact hdead.canceled

/-- Whoever is there only after the step has just subscribed. -/
theorem subscribed_of_step {e : ChannelEvent ℓ π} (hk : (c.step e).consumers[i]? = some k)
    (hlt : ¬i < c.consumers.length) :
    ∃ label subscription, e = .subscribe label subscription ∧ i = c.consumers.length := by
  have hlength := (List.getElem?_eq_some_iff.1 hk).1
  by_cases hnew : ∃ label subscription, e = .subscribe label subscription
  · obtain ⟨label, subscription, rfl⟩ := hnew
    simp only [step, subscribe, List.length_append, List.length_singleton] at hlength
    exact ⟨label, subscription, rfl, by omega⟩
  · simp only [not_exists] at hnew
    rw [length_step c hnew] at hlength
    exact absurd hlength hlt

/-- In the course of a run, a consumer that is on the register is canceled by being stopped itself
or by subscribing to a stopped channel, and not otherwise. -/
theorem canceled_iff (queueSize filterSize : Nat) (events : List (ChannelEvent ℓ π))
    (hi : i ∈ ((empty queueSize filterSize).run events).registered)
    (hk : ((empty queueSize filterSize).run events).consumers[i]? = some k) :
    k.canceled = true ↔ Happens (StopsAlone i) (empty queueSize filterSize) events ∨
      Happens (SubscribesIdle i) (empty queueSize filterSize) events := by
  induction events using List.reverseRecOn generalizing k with
  | nil => simp [run, empty] at hi
  | append_singleton events e ih =>
    rw [run_concat] at hi hk
    rw [happens_concat, happens_concat]
    have hattached := (attached_empty queueSize filterSize : (empty _ _ : Channel ℓ π).Attached).run
      events
    have hstops := fun h : Happens (StopsAlone i) (empty queueSize filterSize) events =>
      h.lt_length fun c e => StopsAlone.lt_length
    have hsubscribes := fun h : Happens (SubscribesIdle i) (empty queueSize filterSize) events =>
      h.lt_length fun c e => SubscribesIdle.lt_length
    generalize (empty queueSize filterSize : Channel ℓ π).run events = c at *
    by_cases hlt : i < c.consumers.length
    · have hk₀ := List.getElem?_eq_getElem hlt
      have hlate : ¬SubscribesIdle i c e := fun h => absurd h.2.1 (Nat.ne_of_gt hlt)
      have hstop : StopsAlone i c e ↔ e = .stopConsumer i := and_iff_left hlt
      rw [canceled_step hattached hk₀ hi hk, ih (mem_registered_of_step hlt hi) hk₀, hstop]
      simp only [hlate, or_false]
      exact or_right_comm
    · obtain ⟨label, subscription, rfl, rfl⟩ := subscribed_of_step hk hlt
      simp only [step, subscribe, List.getElem?_concat_length, Option.some.injEq] at hk
      rw [← hk, iff_false_intro fun h => hlt (hstops h),
        iff_false_intro fun h => hlt (hsubscribes h)]
      simp [StopsAlone, SubscribesIdle]

/-- In the course of a run, whoever is not canceled is alive. -/
theorem alive_of_uncanceled (queueSize filterSize : Nat) (events : List (ChannelEvent ℓ π))
    (hk : ((empty queueSize filterSize).run events).consumers[i]? = some k)
    (hcanceled : k.canceled = false) : k.Alive := by
  induction events using List.reverseRecOn generalizing k with
  | nil => simp [run, empty] at hk
  | append_singleton events e ih =>
    rw [run_concat] at hk
    have hattached := (attached_empty queueSize filterSize : (empty _ _ : Channel ℓ π).Attached).run
      events
    generalize (empty queueSize filterSize : Channel ℓ π).run events = c at *
    by_cases hlt : i < c.consumers.length
    · have hk₀ := List.getElem?_eq_getElem hlt
      have he : ¬c.Cancels i e := by
        intro he
        obtain ⟨k', hk', hdead⟩ := he.dead hattached hk₀
        obtain rfl := Option.some.inj (hk'.symm.trans hk)
        exact Bool.false_ne_true (hcanceled.symm.trans hdead.canceled)
      have hcanceled₀ : (c.consumers[i]).canceled = false := by
        obtain ⟨k', hk', hchanges⟩ := exists_after c e hk₀
        obtain rfl := Option.some.inj (hk'.symm.trans hk)
        exact Bool.eq_false_iff.2 fun h =>
          Bool.false_ne_true (hcanceled.symm.trans (hchanges.frame.2 h))
      obtain ⟨k', hk', hstanding⟩ := standing_step hk₀ hcanceled₀ he
      obtain rfl := Option.some.inj (hk'.symm.trans hk)
      exact (ih hk₀ hcanceled₀).of_standing hstanding
    · obtain ⟨label, subscription, rfl, rfl⟩ := subscribed_of_step hk hlt
      simp only [step, subscribe, List.getElem?_concat_length, Option.some.injEq] at hk
      exact ⟨hcanceled, hk ▸ rfl, hk ▸ rfl⟩

/-! ## What is sent to the living -/

/-- A send on a running channel selects whoever is on the register and takes the message. -/
theorem selected_send (hrunning : c.running = true) (hi : i ∈ c.registered)
    (hk : c.consumers[i]? = some k) {m : Message π} (hcovers : k.subscription.covers m.key = true)
    (hunrestricted : k.subscription.rateLimited = false) :
    ∃ s, (c.send m).1.deliveries[c.deliveries.length]? = some s ∧ s.message = m ∧
      i ∈ s.selected := by
  have hselected : i ∈ c.select m.key c.filter.willSend.evaluate.flagged :=
    (mem_select hk hi).2 ⟨hcovers, .inr hunrestricted⟩
  unfold send
  rw [if_pos hrunning]
  exact ⟨_, List.getElem?_concat_length, rfl, hselected⟩

/-- A send that comes to somebody alive queues its message with it, or lines up there. -/
theorem advance_of_alive {d : Nat} {s : Delivery π} (hs : c.deliveries[d]? = some s)
    (hopen : d ∉ c.sent) (hnext : c.next? d = some i) (hk : c.consumers[i]? = some k)
    (halive : k.Alive) :
    ∃ k', (c.advance d).1.consumers[i]? = some k' ∧
      ((c.advance d).2 = .moved ∧ k'.queue = k.queue ++ [s.message] ∨
        (c.advance d).2 = .blocked ∧ d ∈ k'.waiting) := by
  rw [next?, hs, Option.bind_some] at hnext
  obtain ⟨rest, hremaining⟩ := List.head?_eq_some_iff.1 hnext
  have hsent : c.isSent d = false := by simpa [isSent] using hopen
  simp only [advance, hs, hsent, hremaining, hk, halive.canceled, Bool.false_eq_true, if_false]
  split
  · refine ⟨{ k with queue := k.queue ++ [s.message], granted := k.granted.erase d }, ?_,
      .inl ⟨rfl, rfl⟩⟩
    simp [enqueue, wake, pass, modifyDelivery, modifyConsumer, hk]
  · split
    · next hwaiting => exact ⟨k, hk, .inr ⟨rfl, by simpa using hwaiting⟩⟩
    · refine ⟨{ k with waiting := k.waiting ++ [d] }, ?_, .inr ⟨rfl, by simp⟩⟩
      simp [modifyConsumer, hk]

/-- A send is not completed before it went past somebody alive that it selected. Once it went past,
its message is there, and when it comes there, the message is queued or lines up. -/
theorem served_of_alive {r : ChannelRun ℓ π} (h : r.Sound) {d : Nat} {s : Delivery π}
    (hs : r.channel.deliveries[d]? = some s) (hselected : i ∈ s.selected)
    (hk : r.channel.consumers[i]? = some k) (halive : k.Alive) :
    (d ∈ r.channel.sent → i ∉ s.remaining) ∧
    (i ∉ s.remaining → s.message ∈ k.handled ++ k.held.toList ++ k.queue) ∧
    (r.channel.next? d = some i → ∃ k', (r.channel.advance d).1.consumers[i]? = some k' ∧
      ((r.channel.advance d).2 = .moved ∧ k'.queue = k.queue ++ [s.message] ∨
        (r.channel.advance d).2 = .blocked ∧ d ∈ k'.waiting)) := by
  have hcompleted := (h.tracks hs).remaining_eq
  refine ⟨fun hsent => by simp [hcompleted hsent], fun hpast => ?_, fun hnext => ?_⟩
  · have hpassed := h.mem_passedTo_iff.2 ⟨s, hs, hselected, hpast⟩
    have hmem := List.mem_map_of_mem (f := r.channel.message?) hpassed
    rw [← (h.serves hk halive.canceled).contents_eq, message?, hs, Option.map_some] at hmem
    simpa [Consumer.contents] using hmem
  · refine advance_of_alive hs (fun hsent => ?_) hnext hk halive
    rw [next?, hs, Option.bind_some, hcompleted hsent] at hnext
    simp at hnext

/-- In every state of every run in which the channel is running, a consumer that is on the register
and was not stopped by itself is alive if and only if it did not subscribe while the channel was
stopped. If it is alive, then a message that it subscribed to without a rate limit selects it when
it is sent, and as long as neither the channel nor the consumer is stopped and the consumer is not
removed,

* it stays alive, and the send is not completed before it went past it;
* once the send went past it, it has handled the message, holds it in hand or has it queued;
* when the send comes to it, the message is queued, or lines up at a full queue. -/
theorem registered_live (queueSize filterSize : Nat) (events : List (ChannelEvent ℓ π)) {i : Nat}
    (hrunning : ((empty queueSize filterSize).run events).running = true)
    (hi : i ∈ ((empty queueSize filterSize).run events).registered)
    (hstopped : ¬Happens (StopsAlone i) (empty queueSize filterSize) events) :
    let c := (empty queueSize filterSize).run events
    ∃ k, c.consumers[i]? = some k ∧
      (k.Alive ↔ ¬Happens (SubscribesIdle i) (empty queueSize filterSize) events) ∧
      ∀ (m : Message π) (later : List (ChannelEvent ℓ π)), k.Alive →
        k.subscription.covers m.key = true → k.subscription.rateLimited = false →
        (∀ e ∈ later, Spares i e) →
        let d := c.deliveries.length
        let last := (c.step (.send m)).run later
        ∃ s k', last.deliveries[d]? = some s ∧ s.message = m ∧ i ∈ s.selected ∧
          last.consumers[i]? = some k' ∧ k'.Alive ∧
          (d ∈ last.sent → i ∉ s.remaining) ∧
          (i ∉ s.remaining → m ∈ k'.handled ++ k'.held.toList ++ k'.queue) ∧
          (last.next? d = some i → ∃ k'', (last.advance d).1.consumers[i]? = some k'' ∧
            ((last.advance d).2 = .moved ∧ k''.queue = k'.queue ++ [m] ∨
              (last.advance d).2 = .blocked ∧ d ∈ k''.waiting)) := by
  intro c
  have hsound : ∀ events : List (ChannelEvent ℓ π),
      ((ChannelRun.opening queueSize filterSize).run events).Sound :=
    fun events => (ChannelRun.sound_opening queueSize filterSize).run events
  have hlt : i < c.consumers.length := by
    have hregistered := (hsound events).registered_lt
    rw [ChannelRun.channel_run] at hregistered
    exact hregistered i hi
  have hk := List.getElem?_eq_getElem hlt
  refine ⟨_, hk, ?_, fun m later halive hcovers hunrestricted hlater => ?_⟩
  · have hcanceled := canceled_iff queueSize filterSize events hi hk
    rw [or_iff_right hstopped] at hcanceled
    rw [← hcanceled, Bool.not_eq_true]
    exact ⟨fun halive => halive.canceled, alive_of_uncanceled queueSize filterSize events hk⟩
  · intro d last
    obtain ⟨s₀, hs₀, rfl, hselected₀⟩ := selected_send hrunning hi hk hcovers hunrestricted
    obtain ⟨s, hs, hmessage, hselected, -⟩ := (started_run (c.step (.send s₀.message)) later).1 hs₀
    obtain ⟨selected, hsend⟩ := c.send_spec s₀.message
    obtain ⟨k', hk', halive'⟩ := alive_run (c := c.step (.send s₀.message))
      (by rw [step, hsend.consumers_eq, hk]) halive hlater
    -- the whole run, with its history
    obtain ⟨r, hr, hwhole⟩ : ∃ r : ChannelRun ℓ π, r.channel = last ∧ r.Sound := by
      refine ⟨_, ?_, hsound (events ++ .send s₀.message :: later)⟩
      rw [ChannelRun.channel_run, run, List.foldl_append]
      rfl
    rw [← hmessage]
    refine ⟨s, k', hs, rfl, hselected ▸ hselected₀, hk', halive', ?_⟩
    exact hr ▸ served_of_alive hwhole (hr ▸ hs) (hselected ▸ hselected₀) (hr ▸ hk') halive'

/-- A channel that was stopped and started again before anybody subscribed. -/
def restartedEvents : List (ChannelEvent String Nat) :=
  [.issueProducer, .stop, .start, .subscribe "late" {}]

/-- Whoever subscribes to a channel that was started again gets what is sent. -/
theorem registered_live_restarted :
    let c := (empty 1 1).run restartedEvents
    let last := (c.step (.send ⟨⟨"BTC/USDT", none⟩, 7⟩)).run [.advance 0, .take 0, .advance 0]
    c.running = true ∧ c.registered = [0] ∧ last.sent = [0] ∧
      ∃ k', last.consumers[0]? = some k' ∧ k'.Alive ∧
        ⟨⟨"BTC/USDT", none⟩, 7⟩ ∈ k'.handled ++ k'.held.toList ++ k'.queue := by
  intro c last
  have hstopped : ¬Happens (StopsAlone 0) (empty 1 1) restartedEvents := by
    intro h
    obtain ⟨e, he, -, rfl, -⟩ := h.exists_mem
    simp [restartedEvents] at he
  have hsubscribed : c.consumers[0]?.any (fun k => k.subscription.covers ⟨"BTC/USDT", none⟩ &&
      !k.subscription.rateLimited && !k.canceled) = true := by decide +kernel
  obtain ⟨k₀, hk₀, hsubscribed⟩ := (Option.any_eq_true _ _).1 hsubscribed
  simp only [Bool.and_eq_true, Bool.not_eq_true'] at hsubscribed
  obtain ⟨k, hk, -, hserved⟩ :=
    registered_live 1 1 restartedEvents (by decide +kernel) (by decide +kernel) hstopped
  obtain rfl := Option.some.inj (hk₀.symm.trans hk)
  obtain ⟨s, k', -, -, -, hk', halive, hpast, hcontents, -⟩ := hserved ⟨⟨"BTC/USDT", none⟩, 7⟩
    [.advance 0, .take 0, .advance 0] (alive_of_uncanceled 1 1 restartedEvents hk hsubscribed.2)
    hsubscribed.1.1 hsubscribed.1.2 (by simp [Spares])
  exact ⟨by decide +kernel, by decide +kernel, by decide +kernel, k', hk', halive,
    hcontents (hpast (by decide +kernel))⟩

/-- Somebody subscribes while the channel is stopped. -/
def idleEvents : List (ChannelEvent String Nat) :=
  [.issueProducer, .stop, .subscribe "early" {}, .start]

/-- Whoever subscribed while the channel was stopped is counted when it runs again, though it was
never stopped by itself, but is not alive, and what is sent then through the producer goes past
it. -/
theorem registered_unserved :
    let c := (empty 1 1).run idleEvents
    let last := c.run [.send ⟨⟨"BTC/USDT", none⟩, 7⟩, .advance 0, .advance 0]
    c.producerIssued = true ∧ c.running = true ∧ 0 ∈ c.registered ∧ c.consumerCount = 1 ∧
      ¬Happens (StopsAlone 0) (empty 1 1) idleEvents ∧
      (∃ k, c.consumers[0]? = some k ∧ ¬k.Alive ∧ k.subscription.covers ⟨"BTC/USDT", none⟩ = true ∧
        k.subscription.rateLimited = false) ∧
      last.sent = [0] ∧ last.deliveries[0]?.map (·.selected) = some [0] ∧
      last.consumers[0]?.map (·.contents.length) = some 0 := by
  intro c last
  have hstopped : ¬Happens (StopsAlone 0) (empty 1 1) idleEvents := by
    intro h
    obtain ⟨e, he, -, rfl, -⟩ := h.exists_mem
    simp [idleEvents] at he
  have hcanceled : c.consumers[0]?.any (fun k => k.canceled &&
      k.subscription.covers ⟨"BTC/USDT", none⟩ && !k.subscription.rateLimited) = true := by
    decide +kernel
  obtain ⟨k, hk, hcanceled⟩ := (Option.any_eq_true _ _).1 hcanceled
  simp only [Bool.and_eq_true, Bool.not_eq_true'] at hcanceled
  exact ⟨by decide +kernel, by decide +kernel, by decide +kernel, by decide +kernel, hstopped,
    ⟨k, hk, fun halive => Bool.false_ne_true (halive.canceled.symm.trans hcanceled.1.1),
      hcanceled.1.2, hcanceled.2⟩,
    by decide +kernel, by decide +kernel, by decide +kernel⟩

end Channel

end MarketEngine
