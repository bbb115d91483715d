import MarketEngine.Proofs.Channel.Run
import MarketEngine.Proofs.Lists
/-!
# What a channel has on record

The messages of all sends, in the order in which they started, and for each consumer the messages
that it began with, in order. A send adds to the first (`Channel.recorded_send`), a consumer that
takes a message to the second (`Channel.take_cases`), and everything else leaves both as they were
(`Channel.Silent`).
-/

namespace MarketEngine

variable {ℓ π : Type}

/-- The messages that a consumer began with, the one in hand last. -/
def Consumer.begun (k : Consumer ℓ π) : List (Message π) := k.handled ++ k.held.toList

namespace Channel

/-- The messages of all sends, in the order in which they started. -/
def messages (c : Channel ℓ π) : List (Message π) := c.deliveries.map (·.message)

/-- What a consumer began with, and as whom. Nobody began with nothing. -/
def begunBy (c : Channel ℓ π) (i : Nat) : List (ℓ × Message π) :=
  (c.consumers[i]?).elim [] fun k => k.begun.map (k.label, ·)

/-- Who began with a message is there, under its label. -/
theorem exists_of_mem_begunBy {c : Channel ℓ π} {i : Nat} {label : ℓ} {m : Message π}
    (h : (label, m) ∈ c.begunBy i) : ∃ k, c.consumers[i]? = some k ∧ k.label = label := by
  unfold begunBy at h
  cases hk : c.consumers[i]? with
  | none => simp [hk] at h
  | some k =>
    rw [hk, Option.elim_some] at h
    obtain ⟨_, -, heq⟩ := List.mem_map.1 h
    exact ⟨k, rfl, (Prod.mk.inj heq).1⟩

/-- No send started, and nobody began with a message. -/
structure Silent (c c' : Channel ℓ π) : Prop where
  messages_eq : c'.messages = c.messages
  begunBy_eq : c'.begunBy = c.begunBy

namespace Silent

variable {c c' c'' : Channel ℓ π}

/-- Where sends and consumers are the same nothing new is on record. -/
theorem of_eq (hdeliveries : c'.deliveries = c.deliveries)
    (hconsumers : c'.consumers = c.consumers) :
    c.Silent c' := by
  refine ⟨by rw [messages, hdeliveries, messages], ?_⟩
  funext i
  rw [begunBy, hconsumers, begunBy]

theorem refl (c : Channel ℓ π) : c.Silent c := ⟨rfl, rfl⟩

/-- Nothing new in two steps is nothing new. -/
theorem trans (h : c.Silent c') (h' : c'.Silent c'') : c.Silent c'' :=
  ⟨h'.messages_eq.trans h.messages_eq, h'.begunBy_eq.trans h.begunBy_eq⟩

end Silent

/-- A change of a consumer that leaves what it began with records nothing new. -/
theorem silent_modifyConsumer {c : Channel ℓ π} {i : Nat} {f : Consumer ℓ π → Consumer ℓ π}
    (hf : ∀ k, c.consumers[i]? = some k → (f k).label = k.label ∧ (f k).begun = k.begun) :
    c.Silent (c.modifyConsumer i f) := by
  refine ⟨rfl, ?_⟩
  funext j
  simp only [begunBy, modifyConsumer, List.getElem?_modify]
  cases hk : c.consumers[j]? with
  | none => rfl
  | some k =>
    by_cases hij : i = j
    · subst hij
      obtain ⟨hlabel, hbegun⟩ := hf k hk
      simp [hlabel, hbegun]
    · simp [hij]

/-- A send that goes past a consumer was recorded when it started. -/
theorem silent_pass (c : Channel ℓ π) (d : Nat) : c.Silent (c.pass d) := by
  refine ⟨?_, rfl⟩
  simp only [messages, pass, modifyDelivery]
  apply map_modify
  exact fun _ => rfl

/-- A send that goes on was recorded when it started. -/
theorem silent_advance (c : Channel ℓ π) (d : Nat) : c.Silent (c.advance d).1 := by
  unfold advance
  split
  · exact .refl c
  · next s _ =>
    split
    · exact .refl c
    · split
      · exact .of_eq rfl rfl
      · next i _ _ =>
        split
        · exact silent_pass c d
        · split
          · exact silent_pass c d
          · split
            · -- the message goes to the queue, from where nobody has taken it yet
              have hqueued : c.Silent (c.modifyConsumer i fun k =>
                  { k with queue := k.queue ++ [s.message], granted := k.granted.erase d }) :=
                silent_modifyConsumer fun _ _ => ⟨rfl, rfl⟩
              exact (hqueued.trans (silent_pass _ d)).trans (.of_eq rfl rfl)
            · split
              · exact .refl c
              · exact silent_modifyConsumer fun _ _ => ⟨rfl, rfl⟩

/-- A message that is finished was recorded when the consumer began with it. -/
theorem silent_finish (c : Channel ℓ π) (i : Nat) : c.Silent (c.finish i) :=
  silent_modifyConsumer fun _ _ => ⟨rfl, by simp [Consumer.begun]⟩

/-- Who subscribes has begun with nothing. -/
theorem silent_subscribe (c : Channel ℓ π) (label : ℓ) (s : Subscription) :
    c.Silent (c.subscribe label s).1 := by
  refine ⟨rfl, ?_⟩
  funext i
  simp only [begunBy, subscribe, List.getElem?_append]
  split
  · rfl
  · next hge =>
    rw [List.getElem?_eq_none (Nat.le_of_not_lt hge), List.getElem?_singleton]
    split <;> simp [Consumer.begun]

/-- A send is recorded when it starts, and nobody has begun with its message yet. -/
theorem recorded_send (c : Channel ℓ π) (m : Message π) :
    (c.send m).1.messages = c.messages ++ [m] ∧ (c.send m).1.begunBy = c.begunBy := by
  obtain ⟨selected, hsend⟩ := c.send_spec m
  refine ⟨by simp [messages, hsend.deliveries_eq], ?_⟩
  funext i
  rw [begunBy, hsend.consumers_eq, begunBy]

/-- A consumer takes nothing, or begins with a message. -/
theorem take_cases (c : Channel ℓ π) (i : Nat) :
    (c.take i).2 = none ∧ c.Silent (c.take i).1 ∨
    ∃ m k, (c.take i).2 = some m ∧ c.consumers[i]? = some k ∧
      (c.take i).1.messages = c.messages ∧
      ∀ j, (c.take i).1.begunBy j = c.begunBy j ++ if j = i then [(k.label, m)] else [] := by
  -- a consumer that is idle has handled all that it began with
  have hbegin : ∀ {k : Consumer ℓ π} {c' : Channel ℓ π} (m : Message π)
      (f : Consumer ℓ π → Consumer ℓ π), c.consumers[i]? = some k → k.held = none →
      c'.deliveries = c.deliveries → c'.consumers = (c.modifyConsumer i f).consumers →
      (f k).label = k.label → (f k).handled = k.handled → (f k).held = some m →
      c'.messages = c.messages ∧
        ∀ j, c'.begunBy j = c.begunBy j ++ if j = i then [(k.label, m)] else [] := by
    intro k c' m f hk hidle hdeliveries hconsumers hlabel hhandled hheld
    refine ⟨by rw [messages, hdeliveries, messages], fun j => ?_⟩
    simp only [begunBy, hconsumers, modifyConsumer, List.getElem?_modify]
    by_cases hij : i = j
    · subst hij
      simp [hk, Consumer.begun, hlabel, hhandled, hheld, hidle]
    · simp [hij, Ne.symm hij]
  unfold take
  split
  · exact .inl ⟨rfl, .refl c⟩
  · next k hk =>
    split
    · exact .inl ⟨rfl, .refl c⟩
    · next hidle =>
      have hheld : k.held = none := by
        simp only [Consumer.isIdle, Bool.not_eq_true', Bool.not_eq_false, Bool.and_eq_true,
          Option.isNone_iff_eq_none] at hidle
        exact hidle.1
      split
      · exact .inl ⟨rfl, silent_modifyConsumer fun _ _ => ⟨rfl, rfl⟩⟩
      · split
        · exact .inl ⟨rfl, .refl c⟩
        · next m queue _ _ =>
          exact .inr ⟨m, k, rfl, hk, hbegin m ({ · with queue, held := some m }) hk hheld rfl rfl
            rfl rfl rfl⟩
        · next m queue d waiting _ _ =>
          exact .inr ⟨m, k, rfl, hk, hbegin m
            (fun k => { k with queue, held := some m, waiting, granted := k.granted ++ [d] })
            hk hheld rfl rfl rfl rfl rfl⟩

end Channel

end MarketEngine
