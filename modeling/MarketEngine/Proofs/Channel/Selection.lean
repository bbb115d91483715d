import MarketEngine.Proofs.Channel.Registration
import MarketEngine.Proofs.Channel.RateLimit
/-!
# Who a lookup finds

Which consumers a lookup returns can be told from the history of the channel: those that subscribed
and since then were neither removed nor forgotten with a stop of the running channel
(`Channel.Enrolled`), as far as they ask for the key. They come in the order in which they
subscribed, those of the key's own symbol before those of all symbols, and nobody comes twice
(`Channel.lookup_exact`).
-/

namespace MarketEngine

variable {ℓ π : Type}

/-- Which time frames are accepted does not depend on the side that leaves its own open. -/
theorem Subscription.acceptsTimeFrame_iff {s : Subscription} {t : Option TimeFrame} :
    s.acceptsTimeFrame t = true ↔ s.timeFrame = t ∨ s.timeFrame = none ∨ t = none := by
  unfold acceptsTimeFrame
  cases s.timeFrame <;> cases t <;> simp

/-- What a consumer subscribed to never changes. -/
theorem Consumer.Changes.subscription_eq {k k' : Consumer ℓ π} (h : k.Changes k') :
    k'.subscription = k.subscription := by
  induction h with
  | refl => rfl
  | @tail k' k'' _ hchange ih =>
    rw [← ih]
    cases hchange with
    | withdrawn =>
      rw [withdraw]
      split <;> rfl
    | _ => rfl

namespace Channel

variable {c : Channel ℓ π} {i : Nat} {subscription : Subscription}

/-! ## The register -/

/-- A cancellation alone leaves a consumer on the register. -/
theorem registered_cancel (c : Channel ℓ π) (i : Nat) : (c.cancel i).registered = c.registered := by
  unfold cancel
  split
  · rfl
  · split <;> rfl

/-- Cancellations in turn leave everybody on the register. -/
theorem registered_foldl_cancel (c : Channel ℓ π) (order : List Nat) :
    (order.foldl cancel c).registered = c.registered := by
  induction order generalizing c with
  | nil => rfl
  | cons i rest ih => exact (ih (c.cancel i)).trans (c.registered_cancel i)

/-- A stop of the running channel clears the register. -/
theorem registered_stop (hrunning : c.running = true) : c.stop.registered = [] := by
  rw [stop, if_pos hrunning, registered_foldl_cancel]

/-- A send that goes on leaves the register alone. -/
theorem registered_advance (c : Channel ℓ π) (d : Nat) :
    (c.advance d).1.registered = c.registered := by
  unfold advance
  split
  · rfl
  · split
    · rfl
    · split
      · rfl
      · split
        · rfl
        · split
          · rfl
          · split
            · rfl
            · split <;> rfl

/-- A consumer's turn leaves the register alone. -/
theorem registered_take (c : Channel ℓ π) (i : Nat) : (c.take i).1.registered = c.registered := by
  unfold take
  split
  · rfl
  · split
    · rfl
    · split
      · rfl
      · split <;> rfl

/-- The running channel is stopped. -/
def StopsAll (c : Channel ℓ π) (e : ChannelEvent ℓ π) : Prop := e = .stop ∧ c.running = true

/-- What a step can make of the register. -/
inductive Enrolls (c : Channel ℓ π) : ChannelEvent ℓ π → List Nat → Prop where
  | added (label : ℓ) (subscription : Subscription) :
    Enrolls c (.subscribe label subscription) (c.registered ++ [c.consumers.length])
  | removed (j : Nat) : Enrolls c (.remove j) (c.registered.filter (· ≠ j))
  | cleared (hrunning : c.running = true) : Enrolls c .stop []
  | kept {e : ChannelEvent ℓ π}
    (hsubscribe : ∀ label subscription, e ≠ .subscribe label subscription)
    (hremove : ∀ j, e ≠ .remove j) (hstops : ¬StopsAll c e) : Enrolls c e c.registered

/-- Only a subscription, a removal and a stop of the running channel change the register. -/
theorem registered_step (c : Channel ℓ π) (e : ChannelEvent ℓ π) :
    c.Enrolls e (c.step e).registered := by
  have hkept : (∀ label subscription, e ≠ .subscribe label subscription) → (∀ j, e ≠ .remove j) →
      ¬StopsAll c e → (c.step e).registered = c.registered → c.Enrolls e (c.step e).registered :=
    fun hsubscribe hremove hstops h => h ▸ .kept hsubscribe hremove hstops
  cases e with
  | subscribe label subscription => exact .added label subscription
  | remove j =>
    have hremoved : (c.step (.remove j)).registered = c.registered.filter (· ≠ j) := by
      rw [← c.registered_cancel j]
      rfl
    exact hremoved ▸ .removed j
  | stop =>
    -- a channel that is stopped already has nobody to cancel
    by_cases hrunning : c.running = true
    · exact registered_stop hrunning ▸ .cleared hrunning
    · refine hkept (by simp) (by simp) (fun h => hrunning h.2) ?_
      rw [step, stop, if_neg hrunning]
  | send m =>
    obtain ⟨selected, hsend⟩ := c.send_spec m
    exact hkept (by simp) (by simp) (by simp [StopsAll]) hsend.registered_eq
  | start =>
    refine hkept (by simp) (by simp) (by simp [StopsAll]) ?_
    rw [step, start]
    split <;> rfl
  | advance d => exact hkept (by simp) (by simp) (by simp [StopsAll]) (c.registered_advance d)
  | take j => exact hkept (by simp) (by simp) (by simp [StopsAll]) (c.registered_take j)
  | stopConsumer j => exact hkept (by simp) (by simp) (by simp [StopsAll]) (c.registered_cancel j)
  | lookup key => exact hkept (by simp) (by simp) (by simp [StopsAll]) rfl
  | issueProducer =>
    refine hkept (by simp) (by simp) (by simp [StopsAll]) ?_
    rw [step_issueProducer]
    rfl
  | finish j => exact hkept (by simp) (by simp) (by simp [StopsAll]) rfl
  | lineUp => exact hkept (by simp) (by simp) (by simp [StopsAll]) rfl

/-- The consumers on the register are there, each later one with a greater number. -/
structure Ordered (c : Channel ℓ π) : Prop where
  increasing : c.registered.Pairwise (· < ·)
  lt_length : ∀ i ∈ c.registered, i < c.consumers.length

/-- An empty register is in order. -/
theorem ordered_empty (queueSize filterSize : Nat) :
    (empty queueSize filterSize : Channel ℓ π).Ordered :=
  ⟨.nil, by simp [empty]⟩

/-- A new consumer gets the greatest number and the last place, so the register stays in order. -/
theorem Ordered.step (h : c.Ordered) (e : ChannelEvent ℓ π) : (c.step e).Ordered := by
  have henrolls := c.registered_step e
  have hle := length_le_step c e
  have hsublist : ∀ l, l.Sublist c.registered → (c.step e).registered = l → (c.step e).Ordered :=
    fun l hl hregistered => ⟨hregistered ▸ h.increasing.sublist hl, fun i hi =>
      Nat.lt_of_lt_of_le (h.lt_length i (hl.subset (hregistered ▸ hi))) hle⟩
  generalize hregistered : (c.step e).registered = registered at henrolls
  cases henrolls with
  | added label subscription =>
    refine ⟨?_, fun i hi => ?_⟩
    · rw [hregistered, List.pairwise_append]
      refine ⟨h.increasing, List.pairwise_singleton _ _, fun i hi j hj => ?_⟩
      rw [List.mem_singleton.1 hj]
      exact h.lt_length i hi
    · simp only [Channel.step, subscribe, List.length_append, List.length_singleton]
      rw [hregistered, List.mem_append, List.mem_singleton] at hi
      rcases hi with hi | rfl
      · exact Nat.lt_succ_of_lt (h.lt_length i hi)
      · exact Nat.lt_succ_self _
  | removed j => exact hsublist _ List.filter_sublist hregistered
  | cleared => exact hsublist _ (List.nil_sublist _) hregistered
  | kept => exact hsublist _ (List.Sublist.refl _) hregistered

/-- In every state of every run the register is in order. -/
theorem Ordered.run (h : c.Ordered) (events : List (ChannelEvent ℓ π)) :
    (c.run events).Ordered := by
  induction events generalizing c with
  | nil => exact h
  | cons e rest ih => exact ih (h.step e)

/-- The size of the filter stays what it was. -/
theorem size_run (c : Channel ℓ π) (events : List (ChannelEvent ℓ π)) :
    (c.run events).filter.size = c.filter.size := by
  induction events generalizing c with
  | nil => rfl
  | cons e rest ih =>
    refine (ih (c.step e)).trans ?_
    have hcounting := c.counting_step e
    generalize c.starts? e = m at hcounting
    cases hcounting with
    | started hfilter => rw [hfilter]; rfl
    | dropped hfilter => rw [hfilter]
    | completed hfilter =>
      rw [hfilter, SendFilter.hasSend]
      split <;> rfl
    | apart hfilter =>
      rcases hfilter with hfilter | hfilter
      · rw [hfilter]
      · rw [hfilter]; rfl

/-! ## The history of a registration -/

/-- In the course of a run, the consumer subscribed, and since then it was not removed and no stop
stopped the running channel. -/
def Enrolled (c : Channel ℓ π) (events : List (ChannelEvent ℓ π)) (i : Nat)
    (subscription : Subscription) : Prop :=
  ∃ before label after, events = before ++ .subscribe label subscription :: after ∧
    ((c.run before).subscribe label subscription).2 = i ∧ .remove i ∉ after ∧
    ¬Happens StopsAll (c.run (before ++ [.subscribe label subscription])) after

/-- A run in one piece or in two. -/
theorem run_append (c : Channel ℓ π) (events later : List (ChannelEvent ℓ π)) :
    c.run (events ++ later) = (c.run events).run later :=
  List.foldl_append

/-- With one more event, a consumer is enrolled if it was and nobody ends that, or if the event is
its subscription. -/
theorem enrolled_concat {events : List (ChannelEvent ℓ π)} {e : ChannelEvent ℓ π} :
    Enrolled c (events ++ [e]) i subscription ↔
      Enrolled c events i subscription ∧ e ≠ .remove i ∧ ¬StopsAll (c.run events) e ∨
      ∃ label, e = .subscribe label subscription ∧ (c.run events).consumers.length = i := by
  have hrun (before : List (ChannelEvent ℓ π)) (label : ℓ) (after : List (ChannelEvent ℓ π)) :
      (c.run (before ++ [.subscribe label subscription])).run after =
        c.run (before ++ .subscribe label subscription :: after) := by
    rw [← run_append, List.append_assoc, List.singleton_append]
  constructor
  · rintro ⟨before, label, after, hevents, hi, hremove, hstops⟩
    rcases List.eq_nil_or_concat after with rfl | ⟨after, last, rfl⟩
    · obtain ⟨rfl, he⟩ := List.append_inj' hevents rfl
      exact .inr ⟨label, (List.cons.inj he).1, hi⟩
    · rw [List.concat_eq_append] at hevents hremove hstops
      rw [← List.cons_append, ← List.append_assoc] at hevents
      obtain ⟨rfl, he⟩ := List.append_inj' hevents rfl
      obtain rfl := (List.cons.inj he).1
      rw [happens_concat, not_or, hrun] at hstops
      rw [List.mem_append, not_or, List.mem_singleton] at hremove
      exact .inl ⟨⟨before, label, after, rfl, hi, hremove.1, hstops.1⟩, Ne.symm hremove.2, hstops.2⟩
  · rintro (⟨⟨before, label, after, rfl, hi, hremove, hstops⟩, he, hstop⟩ | ⟨label, rfl, hi⟩)
    · refine ⟨before, label, after ++ [e], by simp, hi, ?_, ?_⟩
      · rw [List.mem_append, not_or, List.mem_singleton]
        exact ⟨hremove, he.symm⟩
      · rw [happens_concat, not_or, hrun]
        exact ⟨hstops, hstop⟩
    · refine ⟨events, label, [], rfl, hi, List.not_mem_nil, ?_⟩
      rintro ⟨before, e, after, hevents, -⟩
      simp at hevents

/-- A consumer is on the register, with this subscription. -/
def Lists (c : Channel ℓ π) (i : Nat) (subscription : Subscription) : Prop :=
  i ∈ c.registered ∧ c.consumers[i]?.map (·.subscription) = some subscription

/-- A consumer keeps its subscription. -/
theorem subscription_step (hlt : i < c.consumers.length) (e : ChannelEvent ℓ π) :
    (c.step e).consumers[i]?.map (·.subscription) = c.consumers[i]?.map (·.subscription) := by
  have hk := List.getElem?_eq_getElem hlt
  obtain ⟨k', hk', hchanges⟩ := exists_after c e hk
  rw [hk', hk, Option.map_some, Option.map_some, hchanges.subscription_eq]

/-- A consumer that is there stays on the register until it is removed or the running channel is
stopped. -/
theorem mem_registered_step (hlt : i < c.consumers.length) (e : ChannelEvent ℓ π) :
    i ∈ (c.step e).registered ↔ i ∈ c.registered ∧ e ≠ .remove i ∧ ¬StopsAll c e := by
  have henrolls := c.registered_step e
  generalize (c.step e).registered = registered at henrolls
  cases henrolls with
  | added label subscription => simp [StopsAll, Nat.ne_of_lt hlt]
  | removed j =>
    rw [List.mem_filter, decide_eq_true_eq]
    simp [StopsAll, eq_comm (a := i)]
  | cleared hrunning => simp [StopsAll, hrunning]
  | kept _ hremove hstops => simp [hremove i, hstops]

/-- With one more event, the register changes as enrollment does. -/
theorem lists_step (h : c.Ordered) (e : ChannelEvent ℓ π) :
    (c.step e).Lists i subscription ↔
      c.Lists i subscription ∧ e ≠ .remove i ∧ ¬StopsAll c e ∨
      ∃ label, e = .subscribe label subscription ∧ c.consumers.length = i := by
  by_cases hlt : i < c.consumers.length
  · have hold : ¬∃ label, e = .subscribe label subscription ∧ c.consumers.length = i :=
      fun ⟨_, _, hi⟩ => Nat.ne_of_gt hlt hi
    rw [or_iff_left hold, Lists, Lists, mem_registered_step hlt, subscription_step hlt]
    exact and_right_comm
  · have hnot : ¬c.Lists i subscription := fun hlists => hlt (h.lt_length i hlists.1)
    rw [or_iff_right fun hlists => hnot hlists.1]
    constructor
    · rintro ⟨-, hsubscription⟩
      obtain ⟨k, hk, rfl⟩ := Option.map_eq_some_iff.1 hsubscription
      obtain ⟨label, subscription, rfl, rfl⟩ := subscribed_of_step hk hlt
      simp only [step, subscribe, List.getElem?_concat_length, Option.some.injEq] at hk
      exact ⟨label, by rw [← hk], rfl⟩
    · rintro ⟨label, rfl, rfl⟩
      simp [Lists, step, subscribe]

/-- In the course of a run, the register is what the history says it is. -/
theorem lists_iff (queueSize filterSize : Nat) (events : List (ChannelEvent ℓ π)) :
    ((empty queueSize filterSize).run events).Lists i subscription ↔
      Enrolled (empty queueSize filterSize) events i subscription := by
  induction events using List.reverseRecOn with
  | nil =>
    refine iff_of_false (fun h => by simp [Lists, run, empty] at h) ?_
    rintro ⟨before, label, after, hevents, -⟩
    simp at hevents
  | append_singleton events e ih =>
    have hordered := ordered_empty (ℓ := ℓ) (π := π) queueSize filterSize
    rw [run_concat, lists_step (hordered.run events), enrolled_concat, ih]

/-! ## The selection -/

/-- Whether a consumer with this subscription is found under the key: its time frame, if it asks for
one, is the key's or the key has none, and if it is rate-limited, the count of the filter is full.
-/
def Finds (c : Channel ℓ π) (key : RoutingKey) (subscription : Subscription) : Prop :=
  (subscription.timeFrame = key.timeFrame ∨ subscription.timeFrame = none ∨ key.timeFrame = none) ∧
    (subscription.rateLimited = true → c.filter.size ≤ c.filter.counter)

/-- The registered consumers of one audience that are found under the key. -/
def found (c : Channel ℓ π) (key : RoutingKey) (audience : Symbol) : List Nat :=
  c.registered.filter (c.wants key c.filter.evaluate.flagged audience)

/-- Who is found asks for the audience, and is not held back by the time frame or by the filter. -/
theorem mem_found {key : RoutingKey} {audience : Symbol} :
    i ∈ c.found key audience ↔ ∃ subscription, c.Lists i subscription ∧
      subscription.symbol = audience ∧ c.Finds key subscription := by
  simp only [found, List.mem_filter, wants, Lists, Finds, SendFilter.evaluate]
  cases c.consumers[i]? with
  | none => simp
  | some k =>
    simp [and_assoc, Subscription.acceptsTimeFrame_iff, imp_iff_or_not]

/-- A lookup finds those who ask for the symbol and then those who ask for all. Under the wildcard
itself these are the same and are found once. -/
theorem lookup_eq (c : Channel ℓ π) (key : RoutingKey) : (c.lookup key).2 =
    c.found key key.symbol ++
      if key.symbol = Symbol.wildcard then [] else c.found key Symbol.wildcard := by
  rw [lookup, select, audiences]
  by_cases hwildcard : key.symbol = Symbol.wildcard
  · simp [hwildcard, found]
  · simp [hwildcard, found]

/-- Whatever happened on a channel, a lookup of a key returns

* first the enrolled consumers of the key's symbol,
* then, unless that is the wildcard itself, the enrolled ones of the wildcard,

those of them that are found under the key, each exactly once and both in the order in which they
subscribed. Neither a lookup nor a step of a send changes how many consumers are registered. -/
theorem lookup_exact (queueSize filterSize : Nat) (events : List (ChannelEvent ℓ π))
    (key : RoutingKey) :
    let c := (empty queueSize filterSize).run events
    (∃ own all, (c.lookup key).2 = own ++ all ∧ (own ++ all).Nodup ∧
      own.Pairwise (· < ·) ∧ all.Pairwise (· < ·) ∧
      (∀ i, i ∈ own ↔ ∃ subscription, Enrolled (empty queueSize filterSize) events i subscription ∧
        subscription.symbol = key.symbol ∧ c.Finds key subscription) ∧
      ∀ i, i ∈ all ↔ key.symbol ≠ Symbol.wildcard ∧
        ∃ subscription, Enrolled (empty queueSize filterSize) events i subscription ∧
          subscription.symbol = Symbol.wildcard ∧ c.Finds key subscription) ∧
    c.filter.size = max filterSize 1 ∧
    (∀ key', (c.lookup key').1.consumerCount = c.consumerCount) ∧
    (∀ m, (c.send m).1.consumerCount = c.consumerCount) ∧
    ∀ d, (c.advance d).1.consumerCount = c.consumerCount := by
  intro c
  have hordered : c.Ordered := (ordered_empty queueSize filterSize).run events
  have hmem (audience : Symbol) (i : Nat) : i ∈ c.found key audience ↔
      ∃ subscription, Enrolled (empty queueSize filterSize) events i subscription ∧
        subscription.symbol = audience ∧ c.Finds key subscription := by
    simp only [mem_found, c, lists_iff]
  refine ⟨⟨_, _, c.lookup_eq key, ?_, hordered.increasing.filter _, ?_, hmem key.symbol, ?_⟩,
    size_run _ events, fun _ => rfl, fun m => ?_, fun d => ?_⟩
  -- a lookup is a selection, of whoever is registered once
  · rw [← c.lookup_eq key]
    exact nodup_select (hordered.increasing.imp Nat.ne_of_lt) _ _
  · split
    · exact .nil
    · exact hordered.increasing.filter _
  · intro i
    split
    · next hwildcard => simp [hwildcard]
    · next hwildcard => rw [hmem, and_iff_right hwildcard]
  · obtain ⟨selected, hsend⟩ := c.send_spec m
    rw [consumerCount, hsend.registered_eq, consumerCount]
  · rw [consumerCount, c.registered_advance d, consumerCount]

/-- The stop of a stopped channel forgets nobody, and who asks for all symbols comes last. -/
example :
    let c := (empty 4 2 : Channel String Nat).run [.subscribe "early" {}, .stop,
      .subscribe "all" {}, .stop, .start, .lookup ⟨"BTC/USDT", none⟩,
      .subscribe "hours" { symbol := "BTC/USDT", timeFrame := some .oneHour },
      .subscribe "limited" { symbol := "BTC/USDT", rateLimited := true },
      .subscribe "gone" { symbol := "BTC/USDT" }, .remove 4]
    (c.lookup ⟨"BTC/USDT", none⟩).2 = [2, 1] ∧ (c.lookup ⟨"BTC/USDT", some .oneDay⟩).2 = [1] ∧
      (c.lookup ⟨"*", none⟩).2 = [1] := by
  decide +kernel

end Channel

end MarketEngine
