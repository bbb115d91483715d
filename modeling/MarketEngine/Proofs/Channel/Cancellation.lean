import MarketEngine.Proofs.Channel.Delivery
import MarketEngine.Proofs.Lists
import Mathlib.Logic.Relation
/-!
# Canceled consumers

A consumer is canceled alone, with its removal or with the channel. From then on it handles at most
the message that it had in hand, drops what is queued with it and stands in the way of no send, and
after its removal or the stop of the channel no message selects it any more, whatever happens to the
channel afterwards (`Channel.canceled_for_good`).

What a step does to a consumer is said once (`Consumer.Change`, `Channel.evolves_step`); that a
canceled consumer stays as it is (`Consumer.Dead`) and that a stop reaches everybody who is not
canceled (`Channel.Attached`) are read off it.
-/

namespace MarketEngine

variable {ℓ π : Type}

/-! ## What a step does to a consumer -/

namespace Consumer

/-- The consumer once it was told to stop. -/
def withdraw (k : Consumer ℓ π) : Consumer ℓ π :=
  if k.canceled then k else { k with canceled := true, waiting := [], granted := [] }

/-- A change that a step makes to a consumer. -/
inductive Change (k : Consumer ℓ π) : Consumer ℓ π → Prop where
  | withdrawn : Change k k.withdraw
  | hidden : Change k { k with running := false }
  | linedUp (d : Nat) (hcanceled : k.canceled = false) :
    Change k { k with waiting := k.waiting ++ [d] }
  | queued (m : Message π) (d : Nat) (hcanceled : k.canceled = false) :
    Change k { k with queue := k.queue ++ [m], granted := k.granted.erase d }
  | took (m : Message π) (queue : List (Message π)) (waiting granted : List Nat)
    (hcanceled : k.canceled = false) (hidle : k.isIdle = true) :
    Change k { k with queue, held := some m, waiting, granted }
  | finished : Change k { k with held := none, handled := k.handled ++ k.held.toList }
  | ended (hcanceled : k.canceled = true) (hidle : k.isIdle = true) :
    Change k { k with ended := true, running := false, queue := [] }

/-- Some changes, one after the other. -/
abbrev Changes : Consumer ℓ π → Consumer ℓ π → Prop := Relation.ReflTransGen Change

/-- A consumer that is told to stop is canceled, if it was not so before. -/
theorem canceled_withdraw (k : Consumer ℓ π) : k.withdraw.canceled = true := by
  unfold withdraw
  split
  · next hcanceled => exact hcanceled
  · rfl

/-- Telling a consumer to stop a second time changes nothing. -/
theorem withdraw_withdraw (k : Consumer ℓ π) : k.withdraw.withdraw = k.withdraw := by
  rw [withdraw, if_pos k.canceled_withdraw]

/-- A consumer is idle between two messages, as long as its loop has not ended. -/
theorem isIdle_eq_true {k : Consumer ℓ π} : k.isIdle = true ↔ k.held = none ∧ k.ended = false := by
  simp [isIdle]

end Consumer

namespace Channel

/-- A cancellation touches one consumer of the channel. -/
theorem consumers_cancel (c : Channel ℓ π) (i : Nat) :
    (c.cancel i).consumers = c.consumers.modify i Consumer.withdraw := by
  have hnobody : (∀ k, c.consumers[i]? = some k → k.withdraw = k) →
      c.consumers = c.consumers.modify i Consumer.withdraw := fun h => by
    rw [modify_congr (g := id) h, List.modify_id]
  unfold cancel
  split
  · next hnone => exact hnobody fun k hk => by simp [hnone] at hk
  · next k hk =>
    have hsame : ∀ k', c.consumers[i]? = some k' → k' = k := fun k' hk' =>
      Option.some.inj (hk'.symm.trans hk)
    split
    · next hcanceled =>
      refine hnobody fun k' hk' => ?_
      rw [hsame k' hk', Consumer.withdraw, if_pos hcanceled]
    · next hcanceled =>
      refine modify_congr fun k' hk' => ?_
      rw [hsame k' hk', Consumer.withdraw, if_neg hcanceled]

/-- Canceling some consumers withdraws these and no others. -/
theorem getElem?_foldl_cancel (c : Channel ℓ π) (order : List Nat) (j : Nat) :
    (order.foldl cancel c).consumers[j]? =
      c.consumers[j]?.map fun k => if j ∈ order then k.withdraw else k := by
  induction order generalizing c with
  | nil => simp
  | cons i rest ih =>
    rw [List.foldl_cons, ih, consumers_cancel, List.getElem?_modify]
    cases c.consumers[j]? with
    | none => rfl
    | some k =>
      by_cases hij : i = j
      · by_cases hrest : j ∈ rest <;> simp [hij, hrest, Consumer.withdraw_withdraw]
      · simp [hij, Ne.symm hij]

/-- The consumers of `c` are still there, changed as a step changes them, and nobody else is. -/
structure Evolves (c c' : Channel ℓ π) : Prop where
  running_eq : c'.running = c.running
  restarts_eq : c'.restarts = c.restarts
  length_eq : c'.consumers.length = c.consumers.length
  consumer : ∀ ⦃i : Nat⦄ ⦃k : Consumer ℓ π⦄, c.consumers[i]? = some k →
    ∃ k', c'.consumers[i]? = some k' ∧ k.Changes k'

namespace Evolves

variable {c c' c'' : Channel ℓ π}

/-- A step that leaves the consumers and the switches of the channel alone. -/
theorem of_eq (hconsumers : c'.consumers = c.consumers) (hrunning : c'.running = c.running)
    (hrestarts : c'.restarts = c.restarts) : c.Evolves c' :=
  ⟨hrunning, hrestarts, by rw [hconsumers], fun _ k hk => ⟨k, hconsumers ▸ hk, .refl⟩⟩

/-- Where nothing happens, every consumer is as it was. -/
theorem refl (c : Channel ℓ π) : c.Evolves c := of_eq rfl rfl rfl

/-- The changes of two steps in a row are those of the first, followed by those of the second. -/
theorem trans (h : c.Evolves c') (h' : c'.Evolves c'') : c.Evolves c'' := by
  refine ⟨h'.running_eq.trans h.running_eq, h'.restarts_eq.trans h.restarts_eq,
    h'.length_eq.trans h.length_eq, fun i k hk => ?_⟩
  obtain ⟨k', hk', hchanges⟩ := h.consumer hk
  obtain ⟨k'', hk'', hchanges'⟩ := h'.consumer hk'
  exact ⟨k'', hk'', hchanges.trans hchanges'⟩

/-- A consumer that is there after a step was there before. -/
theorem exists_before (h : c.Evolves c') {i : Nat} {k' : Consumer ℓ π}
    (hk' : c'.consumers[i]? = some k') : ∃ k, c.consumers[i]? = some k ∧ k.Changes k' := by
  have hlt := (List.getElem?_eq_some_iff.1 hk').1
  rw [h.length_eq] at hlt
  obtain ⟨k'', hk'', hchanges⟩ := h.consumer (List.getElem?_eq_getElem hlt)
  obtain rfl := Option.some.inj (hk''.symm.trans hk')
  exact ⟨_, List.getElem?_eq_getElem hlt, hchanges⟩

end Evolves

/-- One consumer changes, and the others have none of it. -/
theorem evolves_modifyConsumer {c : Channel ℓ π} {i : Nat} {f : Consumer ℓ π → Consumer ℓ π}
    (hf : ∀ k, c.consumers[i]? = some k → k.Change (f k)) : c.Evolves (c.modifyConsumer i f) := by
  refine ⟨rfl, rfl, by simp [modifyConsumer], fun j k hk => ?_⟩
  simp only [modifyConsumer, List.getElem?_modify, hk, Option.map_eq_map, Option.map_some]
  refine ⟨_, rfl, ?_⟩
  split
  · next hij => exact .single (hf k (hij ▸ hk))
  · exact .refl

/-- A cancellation is the first of the changes, or none to a consumer that was canceled. -/
theorem evolves_cancel (c : Channel ℓ π) (i : Nat) : c.Evolves (c.cancel i) := by
  have hmodify : c.Evolves (c.modifyConsumer i Consumer.withdraw) :=
    evolves_modifyConsumer fun k _ => .withdrawn
  have hlifetime : (c.cancel i).running = c.running ∧ (c.cancel i).restarts = c.restarts := by
    unfold cancel
    split
    · exact ⟨rfl, rfl⟩
    · split <;> exact ⟨rfl, rfl⟩
  exact hmodify.trans (.of_eq (c.consumers_cancel i) hlifetime.1 hlifetime.2)

/-- Stopping a consumer cancels it, and hides that its loop runs. -/
theorem evolves_stopConsumer (c : Channel ℓ π) (i : Nat) : c.Evolves (c.stopConsumer i) :=
  (evolves_cancel c i).trans (evolves_modifyConsumer fun _ _ => .hidden)

/-- Consumers that are canceled in turn change one after the other. -/
theorem evolves_foldl_cancel (c : Channel ℓ π) (order : List Nat) :
    c.Evolves (order.foldl cancel c) := by
  induction order generalizing c with
  | nil => exact .refl c
  | cons i rest ih => exact (evolves_cancel c i).trans (ih _)

/-- An idle consumer takes a message, ends, or finds that there is nothing to do. -/
theorem evolves_take (c : Channel ℓ π) (i : Nat) : c.Evolves (c.take i).1 := by
  unfold take
  split
  · exact .of_eq rfl rfl rfl
  · next k hk =>
    have hsame : ∀ k', c.consumers[i]? = some k' → k' = k := fun k' hk' =>
      Option.some.inj (hk'.symm.trans hk)
    split
    · exact .of_eq rfl rfl rfl
    · next hidle =>
      have hidle : k.isIdle = true := by simpa using hidle
      split
      · next hcanceled =>
        refine evolves_modifyConsumer fun k' hk' => ?_
        obtain rfl := hsame k' hk'
        exact .ended hcanceled hidle
      · next hcanceled =>
        rw [Bool.not_eq_true] at hcanceled
        split
        · exact .of_eq rfl rfl rfl
        · refine evolves_modifyConsumer fun k' hk' => ?_
          obtain rfl := hsame k' hk'
          exact .took _ _ k'.waiting k'.granted hcanceled hidle
        · next m queue d waiting _ _ =>
          refine (evolves_modifyConsumer (i := i) (f := fun k =>
            { k with queue, held := some m, waiting, granted := k.granted ++ [d] })
            fun k' hk' => ?_).trans (.of_eq rfl rfl rfl)
          obtain rfl := hsame k' hk'
          exact .took _ _ _ _ hcanceled hidle

/-- A send that goes on queues its message, lines up, or passes a canceled consumer by. -/
theorem evolves_advance (c : Channel ℓ π) (d : Nat) : c.Evolves (c.advance d).1 := by
  unfold advance
  split
  · exact .of_eq rfl rfl rfl
  · next s _ =>
    split
    · exact .of_eq rfl rfl rfl
    · split
      · exact .of_eq rfl rfl rfl
      · next i _ _ =>
        split
        · exact .of_eq rfl rfl rfl
        · next k hk =>
          have hsame : ∀ k', c.consumers[i]? = some k' → k' = k := fun k' hk' =>
            Option.some.inj (hk'.symm.trans hk)
          split
          · exact .of_eq rfl rfl rfl
          · next hcanceled =>
            rw [Bool.not_eq_true] at hcanceled
            split
            · refine (evolves_modifyConsumer (i := i) (f := fun k =>
                { k with queue := k.queue ++ [s.message], granted := k.granted.erase d })
                fun k' hk' => ?_).trans (.of_eq rfl rfl rfl)
              obtain rfl := hsame k' hk'
              exact .queued _ _ hcanceled
            · split
              · exact .of_eq rfl rfl rfl
              · refine evolves_modifyConsumer fun k' hk' => ?_
                obtain rfl := hsame k' hk'
                exact .linedUp d hcanceled

/-- Apart from subscriptions and the lifetime of the channel, a step changes the consumers that
there are. -/
theorem evolves_step (c : Channel ℓ π) {e : ChannelEvent ℓ π}
    (hsubscribe : ∀ label subscription, e ≠ .subscribe label subscription) (hstop : e ≠ .stop)
    (hstart : e ≠ .start) : c.Evolves (c.step e) := by
  cases e with
  | subscribe label subscription => exact absurd rfl (hsubscribe label subscription)
  | lookup key => exact .of_eq rfl rfl rfl
  | issueProducer =>
    rw [step_issueProducer]
    exact .of_eq rfl rfl rfl
  | send m =>
    rw [step, send]
    split <;> exact .of_eq rfl rfl rfl
  | advance d => exact evolves_advance c d
  | take i => exact evolves_take c i
  | finish i => exact evolves_modifyConsumer fun _ _ => .finished
  | stopConsumer i => exact evolves_stopConsumer c i
  | remove i => exact (evolves_stopConsumer c i).trans (.of_eq rfl rfl rfl)
  | stop => exact absurd rfl hstop
  | start => exact absurd rfl hstart
  | lineUp => exact .of_eq rfl rfl rfl

/-- Nobody ever goes, and every step changes a consumer as a step does. -/
theorem exists_after (c : Channel ℓ π) (e : ChannelEvent ℓ π) {i : Nat} {k : Consumer ℓ π}
    (hk : c.consumers[i]? = some k) :
    ∃ k', (c.step e).consumers[i]? = some k' ∧ k.Changes k' := by
  by_cases hquiet : (∀ label subscription, e ≠ .subscribe label subscription) ∧ e ≠ .stop ∧
      e ≠ .start
  · exact (evolves_step c hquiet.1 hquiet.2.1 hquiet.2.2).consumer hk
  · cases e with
    | subscribe label subscription =>
      have hlt := (List.getElem?_eq_some_iff.1 hk).1
      refine ⟨k, ?_, .refl⟩
      rw [step, subscribe]
      exact (List.getElem?_append_left hlt).trans hk
    | stop =>
      rw [step, stop]
      split
      · exact (evolves_foldl_cancel { c with running := false, registered := [] } _).consumer hk
      · exact ⟨k, hk, .refl⟩
    | start =>
      refine ⟨k, ?_, .refl⟩
      rw [step, start]
      split <;> exact hk
    | _ => simp at hquiet

/-! ## A canceled consumer -/

end Channel

namespace Consumer

/-- What is left of a consumer `k` that was canceled. -/
structure Dead (k k' : Consumer ℓ π) : Prop where
  canceled : k'.canceled = true
  /-- It has handled nothing since, or the message that it had in hand. -/
  records : k'.handled = k.handled ∧ k'.held = k.held ∨
    k'.handled = k.handled ++ k.held.toList ∧ k'.held = none
  /-- Nothing was queued with it since. -/
  queue : k'.queue = k.queue ∨ k'.queue = []
  ended : k'.ended = true → k'.held = none ∧ k'.queue = []
  waiting : k'.waiting = []
  granted : k'.granted = []

variable {k k' k'' : Consumer ℓ π}

/-- No change brings a canceled consumer back. -/
theorem Dead.change (h : k.Dead k') (hchange : k'.Change k'') : k.Dead k'' := by
  have halive : k'.canceled ≠ false := by simp [h.canceled]
  cases hchange with
  | withdrawn => rwa [withdraw, if_pos h.canceled]
  | hidden => exact ⟨h.canceled, h.records, h.queue, h.ended, h.waiting, h.granted⟩
  | linedUp d hcanceled => exact absurd hcanceled halive
  | queued m d hcanceled => exact absurd hcanceled halive
  | took m queue waiting granted hcanceled hidle => exact absurd hcanceled halive
  | finished =>
    refine ⟨h.canceled, ?_, h.queue, fun hended => ⟨rfl, (h.ended hended).2⟩, h.waiting, h.granted⟩
    rcases h.records with ⟨hhandled, hheld⟩ | ⟨hhandled, hheld⟩
    · exact .inr ⟨by rw [hhandled, hheld], rfl⟩
    · exact .inr ⟨by simp [hhandled, hheld], rfl⟩
  | ended hcanceled hidle =>
    refine ⟨h.canceled, h.records, .inr rfl, fun _ => ⟨?_, rfl⟩, h.waiting, h.granted⟩
    exact (isIdle_eq_true.1 hidle).1

/-- What is left of a canceled consumer stays so through any changes. -/
theorem Dead.changes (h : k.Dead k') (hchanges : k'.Changes k'') : k.Dead k'' := by
  induction hchanges with
  | refl => exact h
  | tail _ hchange ih => exact ih.change hchange

/-- A canceled consumer is one that is left of itself, and only a canceled one has ended. -/
structure Proper (k : Consumer ℓ π) : Prop where
  dead : k.canceled = true → k.Dead k
  ended : k.ended = true → k.canceled = true

/-- Of a proper consumer that is told to stop, no more is left than of a canceled one. -/
theorem Proper.withdraw (h : k.Proper) : k.Dead k.withdraw := by
  rw [Consumer.withdraw]
  split
  · next hcanceled => exact h.dead hcanceled
  · next hcanceled => exact ⟨rfl, .inl ⟨rfl, rfl⟩, .inl rfl, fun hended => absurd (h.ended hended)
      hcanceled, rfl, rfl⟩

/-- What is dead is proper. -/
theorem Dead.proper (h : k.Dead k') : k'.Proper :=
  ⟨fun _ => ⟨h.canceled, .inl ⟨rfl, rfl⟩, .inl rfl, h.ended, h.waiting, h.granted⟩,
    fun _ => h.canceled⟩

/-- No change brings a canceled consumer back, or ends one that is not canceled. -/
theorem Proper.change (h : k.Proper) (hchange : k.Change k') : k'.Proper := by
  by_cases hcanceled : k.canceled = true
  · exact ((h.dead hcanceled).change hchange).proper
  · have halive : k'.canceled = k.canceled → k'.ended = k.ended → k'.Proper := by
      intro hsame hended
      refine ⟨fun h' => absurd (hsame ▸ h') hcanceled, fun h' => ?_⟩
      exact absurd (h.ended (hended ▸ h')) hcanceled
    cases hchange with
    | withdrawn => exact h.withdraw.proper
    | ended h' => exact absurd h' hcanceled
    | _ => exact halive rfl rfl

/-- A consumer stays proper through any changes. -/
theorem Proper.changes (h : k.Proper) (hchanges : k.Changes k') : k'.Proper := by
  induction hchanges with
  | refl => exact h
  | tail _ hchange ih => exact ih.change hchange

/-- When a consumer subscribed never changes, and a cancellation is never taken back. -/
theorem Changes.frame (h : k.Changes k') :
    k'.since = k.since ∧ (k.canceled = true → k'.canceled = true) := by
  induction h with
  | refl => exact ⟨rfl, id⟩
  | @tail k' k'' _ hchange ih =>
    obtain ⟨hsince, hcanceled⟩ := ih
    rw [← hsince]
    cases hchange with
    | withdrawn =>
      refine ⟨?_, fun _ => k'.canceled_withdraw⟩
      rw [withdraw]
      split <;> rfl
    | _ => exact ⟨rfl, hcanceled⟩

end Consumer

namespace Channel

variable {c c' : Channel ℓ π}

/-- Every consumer is proper, and those that are not canceled subscribed since the channel was last
started. -/
structure Attached (c : Channel ℓ π) : Prop where
  proper : ∀ ⦃i : Nat⦄ ⦃k : Consumer ℓ π⦄, c.consumers[i]? = some k → k.Proper
  current : ∀ ⦃i : Nat⦄ ⦃k : Consumer ℓ π⦄, c.consumers[i]? = some k → k.canceled = false →
    c.running = true ∧ k.since = c.restarts

/-- A channel without consumers has none that is not proper. -/
theorem attached_empty (queueSize filterSize : Nat) :
    (empty queueSize filterSize : Channel ℓ π).Attached :=
  ⟨by simp [empty], by simp [empty]⟩

/-- A stop cancels every consumer. -/
theorem canceled_stop (h : c.Attached) (hrunning : c.running = true) {i : Nat}
    {k : Consumer ℓ π} (hk : c.consumers[i]? = some k) :
    c.stop.consumers[i]? = some k.withdraw ∧ (k.canceled = false → i ∈ c.stopOrder) := by
  have horder : k.canceled = false → i ∈ c.stopOrder := by
    intro hcanceled
    rw [stopOrder, mem_closeGaps]
    refine List.mem_cons_of_mem _ (List.mem_map.2 ⟨(k, i), List.mem_filter.2 ⟨?_, ?_⟩, ?_⟩)
    · exact List.mk_mem_zipIdx_iff_getElem?.2 hk
    · simpa using (h.current hk hcanceled).2
    · simp [hcanceled]
  refine ⟨?_, horder⟩
  rw [stop, if_pos hrunning, getElem?_foldl_cancel, hk, Option.map_some]
  split
  · rfl
  · next hmissing =>
    have hcanceled : k.canceled = true := by
      by_contra hcanceled
      exact hmissing (horder (by simpa using hcanceled))
    rw [Consumer.withdraw, if_pos hcanceled]

/-- A step in which nobody subscribes and the channel is not switched keeps the consumers attached.
-/
theorem Evolves.attached (h : c.Evolves c') (hattached : c.Attached) : c'.Attached := by
  constructor
  · intro i k' hk'
    obtain ⟨k, hk, hchanges⟩ := h.exists_before hk'
    exact (hattached.proper hk).changes hchanges
  · intro i k' hk' hcanceled'
    obtain ⟨k, hk, hchanges⟩ := h.exists_before hk'
    have hcanceled : k.canceled = false := by
      by_contra hcanceled
      have hgone := hchanges.frame.2 (by simpa using hcanceled)
      simp [hgone] at hcanceled'
    rw [h.running_eq, h.restarts_eq, hchanges.frame.1]
    exact hattached.current hk hcanceled

namespace Attached

/-- A new consumer is canceled from the start if the channel does not run, and else it belongs to
the current start. -/
theorem subscribe (h : c.Attached) (label : ℓ) (subscription : Subscription) :
    (c.subscribe label subscription).1.Attached := by
  have hcases : ∀ ⦃i : Nat⦄ ⦃k : Consumer ℓ π⦄,
      (c.subscribe label subscription).1.consumers[i]? = some k → c.consumers[i]? = some k ∨
        k = { label, subscription, since := c.restarts, canceled := !c.running } := by
    intro i k hk
    simp only [Channel.subscribe, List.getElem?_append] at hk
    split at hk
    · exact .inl hk
    · exact .inr (List.mem_singleton.1 (List.mem_of_getElem? hk))
  constructor
  · intro i k hk
    rcases hcases hk with hk | rfl
    · exact h.proper hk
    · exact ⟨fun hcanceled => ⟨hcanceled, .inl ⟨rfl, rfl⟩, .inl rfl, by simp, rfl, rfl⟩, by simp⟩
  · intro i k hk hcanceled
    rcases hcases hk with hk | rfl
    · exact h.current hk hcanceled
    · exact ⟨by simpa [Channel.subscribe] using hcanceled, rfl⟩

/-- A stop cancels every consumer, so none is left that would have to belong to a running channel.
-/
theorem stop (h : c.Attached) : c.stop.Attached := by
  by_cases hrunning : c.running = true
  · have hlength : c.stop.consumers.length = c.consumers.length := by
      rw [Channel.stop, if_pos hrunning]
      exact (evolves_foldl_cancel { c with running := false, registered := [] } _).length_eq
    have hwithdrawn : ∀ ⦃i : Nat⦄ ⦃k' : Consumer ℓ π⦄, c.stop.consumers[i]? = some k' →
        ∃ k : Consumer ℓ π, k.Proper ∧ k' = k.withdraw := by
      intro i k' hk'
      have hlt := (List.getElem?_eq_some_iff.1 hk').1
      rw [hlength] at hlt
      have hk := List.getElem?_eq_getElem hlt
      have hstop := (canceled_stop h hrunning hk).1
      exact ⟨_, h.proper hk, Option.some.inj (hk'.symm.trans hstop)⟩
    constructor
    · intro i k' hk'
      obtain ⟨k, hproper, rfl⟩ := hwithdrawn hk'
      exact hproper.withdraw.proper
    · intro i k' hk' hcanceled
      obtain ⟨k, -, rfl⟩ := hwithdrawn hk'
      simp [k.canceled_withdraw] at hcanceled
  · rw [Channel.stop, if_neg hrunning]
    exact h

/-- Before a start of a stopped channel all consumers are canceled, so none of them comes to belong
to it. -/
theorem start (h : c.Attached) : c.start.Attached := by
  rw [Channel.start]
  split
  · exact h
  · next hstopped =>
    exact ⟨h.proper, fun i k hk hcanceled => absurd (h.current hk hcanceled).1 hstopped⟩

/-- Whatever happens to a channel, its consumers stay attached. -/
theorem step (h : c.Attached) (e : ChannelEvent ℓ π) : (c.step e).Attached := by
  cases e with
  | subscribe label subscription => exact h.subscribe label subscription
  | stop => exact h.stop
  | start => exact h.start
  | _ => exact (evolves_step c (by simp) (by simp) (by simp)).attached h

/-- In every state of every run the consumers are attached. -/
theorem run (h : c.Attached) (events : List (ChannelEvent ℓ π)) : (c.run events).Attached := by
  induction events generalizing c with
  | nil => exact h
  | cons e rest ih => exact ih (h.step e)

end Attached

/-! ## A consumer that is not registered -/

/-- A consumer is off the register, and no send after the first `n` selected it. -/
structure Forgotten (n i : Nat) (c : Channel ℓ π) : Prop where
  lt_length : i < c.consumers.length
  not_registered : i ∉ c.registered
  not_selected : ∀ ⦃d : Nat⦄ ⦃s : Delivery π⦄, n ≤ d → c.deliveries[d]? = some s → i ∉ s.selected

namespace Forgotten

variable {n i : Nat}

/-- Nobody is put on the register and no send begins, so a forgotten consumer stays forgotten. -/
theorem of_kept (h : c.Forgotten n i) (hkept : c.Kept c') : c'.Forgotten n i where
  lt_length := by
    rw [hkept.length_eq]
    exact h.lt_length
  not_registered hi := h.not_registered (hkept.registered_sublist.subset hi)
  not_selected := by
    rw [hkept.deliveries_eq]
    exact h.not_selected

/-- A send selects from the register, where a forgotten consumer is not. -/
theorem send (h : c.Forgotten n i) (m : Message π) : (c.send m).1.Forgotten n i := by
  obtain ⟨selected, hsend⟩ := c.send_spec m
  refine ⟨?_, ?_, fun d s hd hs => ?_⟩
  · rw [hsend.consumers_eq]
    exact h.lt_length
  · rw [hsend.registered_eq]
    exact h.not_registered
  · rw [hsend.deliveries_eq, List.getElem?_append] at hs
    split at hs
    · exact h.not_selected hd hs
    · have hnew := List.mem_singleton.1 (List.mem_of_getElem? hs)
      rw [hnew]
      rcases hsend.selected_cases with rfl | ⟨flagged, rfl⟩
      · exact List.not_mem_nil
      · exact fun hi => h.not_registered (mem_of_mem_select hi)

/-- A send that goes on neither registers anybody nor selects anew. -/
theorem advance (h : c.Forgotten n i) (d : Nat) : (c.advance d).1.Forgotten n i := by
  have hadvance := c.advance_spec d
  generalize c.advance d = result at hadvance ⊢
  cases hadvance with
  | ended => exact h
  | completed hs hremaining => exact ⟨h.lt_length, h.not_registered, h.not_selected⟩
  | blocked hkept => exact h.of_kept hkept
  | moved hpassing =>
    refine ⟨?_, ?_, fun e s he hs => ?_⟩
    · rw [hpassing.length_eq]
      exact h.lt_length
    · rw [hpassing.registered_eq]
      exact h.not_registered
    · rw [hpassing.deliveries_eq, List.getElem?_modify] at hs
      obtain ⟨old, hold, rfl⟩ := Option.map_eq_some_iff.1 hs
      have hselected := h.not_selected he hold
      split <;> exact hselected

/-- Only a subscription registers somebody, and that is somebody new. -/
theorem step (h : c.Forgotten n i) (e : ChannelEvent ℓ π) : (c.step e).Forgotten n i := by
  cases e with
  | subscribe label subscription =>
    refine ⟨?_, fun hi => ?_, h.not_selected⟩
    · simp only [Channel.step, subscribe, List.length_append, List.length_singleton]
      exact Nat.lt_succ_of_lt h.lt_length
    · rcases List.mem_append.1 hi with hold | hnew
      · exact h.not_registered hold
      · have hi := List.mem_singleton.1 hnew
        have hlt := h.lt_length
        omega
  | send m => exact h.send m
  | advance d => exact h.advance d
  | _ => exact h.of_kept (kept_step _ (by simp) (by simp) (by simp))

/-- A consumer off the register is never selected again: no event registers one that is there
already. -/
theorem run (h : c.Forgotten n i) (events : List (ChannelEvent ℓ π)) :
    (c.run events).Forgotten n i := by
  induction events generalizing c with
  | nil => exact h
  | cons e rest ih => exact ih (h.step e)

end Forgotten

/-! ## The moment of cancellation -/

/-- Those who can go on once a consumer is canceled: itself, unless it is handling a message, and
the sends in line. -/
def released (i : Nat) (k : Consumer ℓ π) : List Wake :=
  (if k.isIdle then [.consumer i] else []) ++ k.waiting.map .delivery

/-- A cancellation wakes some more, and takes back nobody that was to be woken. -/
theorem woken_cancel (c : Channel ℓ π) (i : Nat) : c.woken <+: (c.cancel i).woken := by
  unfold cancel
  split
  · exact List.prefix_refl _
  · split
    · exact List.prefix_refl _
    · exact List.prefix_append ..

/-- Cancellations in turn only ever wake some more. -/
theorem woken_foldl_cancel (c : Channel ℓ π) (order : List Nat) :
    c.woken <+: (order.foldl cancel c).woken := by
  induction order generalizing c with
  | nil => exact List.prefix_refl _
  | cons i rest ih => exact (woken_cancel c i).trans (ih _)

/-- With its cancellation a consumer wakes, and so do the sends that wait for a place in its queue.
-/
theorem released_cancel {i : Nat} {k : Consumer ℓ π} (hk : c.consumers[i]? = some k)
    (hcanceled : k.canceled = false) : released i k ⊆ (c.cancel i).woken := by
  rw [cancel, hk]
  simp only [hcanceled]
  exact List.subset_append_right ..

/-- Whoever is canceled among others is released in its turn. -/
theorem released_foldl_cancel {order : List Nat} {i : Nat} {k : Consumer ℓ π}
    (hk : c.consumers[i]? = some k) (hcanceled : k.canceled = false) (hi : i ∈ order) :
    released i k ⊆ (order.foldl cancel c).woken := by
  obtain ⟨first, rest, rfl, hfirst⟩ := List.eq_append_cons_of_mem hi
  have huntouched : (first.foldl cancel c).consumers[i]? = some k := by
    rw [getElem?_foldl_cancel, hk, Option.map_some, if_neg hfirst]
  rw [List.foldl_append, List.foldl_cons]
  exact List.Subset.trans (released_cancel huntouched hcanceled) (woken_foldl_cancel _ _).subset

/-- The steps that cancel a consumer: alone, with its removal, or with the running channel. -/
inductive Cancels (c : Channel ℓ π) (i : Nat) : ChannelEvent ℓ π → Prop where
  | stopConsumer : Cancels c i (.stopConsumer i)
  | remove : Cancels c i (.remove i)
  | stop (hrunning : c.running = true) : Cancels c i .stop

section Cancels

variable {i : Nat} {k : Consumer ℓ π} {e : ChannelEvent ℓ π}

/-- A consumer that is stopped alone is left as a canceled one. -/
theorem dead_stopConsumer (h : c.Attached) (hk : c.consumers[i]? = some k) :
    ∃ k', (c.stopConsumer i).consumers[i]? = some k' ∧ k.Dead k' := by
  refine ⟨{ k.withdraw with running := false }, ?_, (h.proper hk).withdraw.change .hidden⟩
  simp [stopConsumer, modifyConsumer, consumers_cancel, hk]

/-- Each way to cancel a consumer leaves of it what is left of a canceled one. -/
theorem Cancels.dead (he : c.Cancels i e) (h : c.Attached) (hk : c.consumers[i]? = some k) :
    ∃ k', (c.step e).consumers[i]? = some k' ∧ k.Dead k' := by
  cases he with
  | stopConsumer => exact dead_stopConsumer h hk
  | remove => exact dead_stopConsumer h hk
  | stop hrunning => exact ⟨_, (canceled_stop h hrunning hk).1, (h.proper hk).withdraw⟩

/-- Each way to cancel a consumer releases it and the sends in line, if it was not canceled before.
-/
theorem Cancels.released (he : c.Cancels i e) (h : c.Attached) (hk : c.consumers[i]? = some k)
    (hcanceled : k.canceled = false) : released i k ⊆ (c.step e).woken := by
  cases he with
  | stopConsumer => exact released_cancel hk hcanceled
  | remove => exact released_cancel hk hcanceled
  | stop hrunning =>
    have horder := (canceled_stop h hrunning hk).2 hcanceled
    rw [step, Channel.stop, if_pos hrunning]
    exact released_foldl_cancel (c := { c with running := false, registered := [] }) hk hcanceled
      horder

/-- Whoever is removed or canceled with its channel is selected by no send that starts later. -/
theorem Cancels.forgotten (he : c.Cancels i e) (hk : c.consumers[i]? = some k)
    (hremoved : e ≠ .stopConsumer i) : (c.step e).Forgotten c.deliveries.length i := by
  have hkept := kept_step c (e := e) (by cases he <;> simp) (by cases he <;> simp)
    (by cases he <;> simp)
  refine ⟨?_, ?_, fun d s hd hs => ?_⟩
  · rw [hkept.length_eq]
    exact (List.getElem?_eq_some_iff.1 hk).1
  · cases he with
    | stopConsumer => exact absurd rfl hremoved
    | remove => simp [step, Channel.remove]
    | stop hrunning =>
      have hcleared := kept_foldl_cancel { c with running := false, registered := [] } c.stopOrder
      rw [step, Channel.stop, if_pos hrunning]
      exact fun hi => List.not_mem_nil (hcleared.registered_sublist.subset hi)
  · rw [hkept.deliveries_eq] at hs
    have hlt := (List.getElem?_eq_some_iff.1 hs).1
    omega

end Cancels

/-! ## Dead for good -/

/-- Nothing that happens to the channel later brings a canceled consumer back. -/
theorem dead_run {i : Nat} {k k' : Consumer ℓ π} (hk' : c.consumers[i]? = some k')
    (hdead : k.Dead k') (events : List (ChannelEvent ℓ π)) :
    ∃ k'', (c.run events).consumers[i]? = some k'' ∧ k.Dead k'' := by
  induction events generalizing c k' with
  | nil => exact ⟨k', hk', hdead⟩
  | cons e rest ih =>
    obtain ⟨next, hnext, hchanges⟩ := exists_after c e hk'
    exact ih hnext (hdead.changes hchanges)

/-- A send that comes to a canceled consumer goes past it, and nothing else changes. -/
theorem advance_of_canceled {d i : Nat} {k : Consumer ℓ π} (hk : c.consumers[i]? = some k)
    (hcanceled : k.canceled = true) (hopen : d ∉ c.sent) (hnext : c.next? d = some i) :
    c.advance d = (c.pass d, .moved) := by
  obtain ⟨s, hs, hhead⟩ := Option.bind_eq_some_iff.1 hnext
  obtain ⟨rest, hremaining⟩ := List.head?_eq_some_iff.1 hhead
  have hsent : c.isSent d = false := by simpa [isSent] using hopen
  rw [advance, hs]
  simp [hsent, hremaining, hk, hcanceled]

/-- At its next turn without a message in hand, a canceled consumer ends with an empty queue. -/
theorem take_of_dead {i : Nat} {k k' : Consumer ℓ π} (hk' : c.consumers[i]? = some k')
    (hdead : k.Dead k') : (c.take i).2 = none ∧
      (k'.held = none → ∃ k'', (c.take i).1.consumers[i]? = some k'' ∧ k''.ended = true ∧
        k''.queue = []) := by
  by_cases hidle : k'.isIdle = true
  · rw [take, hk']
    simp only [hidle, hdead.canceled]
    refine ⟨rfl, fun _ => ⟨{ k' with ended := true, running := false, queue := [] }, ?_, rfl, rfl⟩⟩
    simp [modifyConsumer, hk']
  · rw [take, hk']
    simp only [hidle]
    refine ⟨rfl, fun hheld => ⟨k', hk', ?_⟩⟩
    have hended : k'.ended = true := by
      by_contra hended
      exact hidle (Consumer.isIdle_eq_true.2 ⟨hheld, by simpa using hended⟩)
    exact ⟨hended, (hdead.ended hended).2⟩

/-- What happens to a channel: an atomic step, or somebody starts the loop of a consumer again. -/
inductive Call (ℓ π : Type) where
  | event (e : ChannelEvent ℓ π)
  | runConsumer (i : Nat)
  deriving Repr

def call (c : Channel ℓ π) : Call ℓ π → Channel ℓ π
  | .event e => c.step e
  | .runConsumer i => c.runConsumer i

def calls (c : Channel ℓ π) (all : List (Call ℓ π)) : Channel ℓ π := all.foldl call c

def Call.event? : Call ℓ π → Option (ChannelEvent ℓ π)
  | .event e => some e
  | .runConsumer _ => none

/-- Nothing comes of starting a loop again. -/
theorem calls_eq (c : Channel ℓ π) (all : List (Call ℓ π)) :
    c.calls all = c.run (all.filterMap Call.event?) := by
  induction all generalizing c with
  | nil => rfl
  | cons call rest ih =>
    cases call with
    | event e => exact ih (c.step e)
    | runConsumer i => exact ih c

/-- From the step on that cancels a consumer, in every state that the channel ever comes to:

* the consumer has handled nothing more than the message that it had in hand, nothing was queued
  with it since, nobody waits at it, and at its next turn with nothing in hand it ends, its queue
  empty;
* it takes no further message, and a send that comes to it goes past it at once;
* those who waited at it were woken at the moment of cancellation, and so was the consumer, unless
  it was handling a message;
* unless it was merely stopped, it is off the register, and no message that is sent later selects
  it. -/
theorem canceled_for_good (queueSize filterSize : Nat) (before : List (Call ℓ π)) {i : Nat}
    {k : Consumer ℓ π} {e : ChannelEvent ℓ π}
    (hk : ((empty queueSize filterSize).calls before).consumers[i]? = some k)
    (he : ((empty queueSize filterSize).calls before).Cancels i e) (after : List (Call ℓ π)) :
    let c := (empty queueSize filterSize).calls before
    let last := (c.step e).calls after
    (∃ k', last.consumers[i]? = some k' ∧ k.Dead k' ∧
      (k'.held = none → ∃ k'', (last.take i).1.consumers[i]? = some k'' ∧ k''.ended = true ∧
        k''.queue = [])) ∧
    (last.take i).2 = none ∧
    (∀ d, last.next? d = some i → last.advance d = (last.pass d, .moved)) ∧
    (k.canceled = false → released i k ⊆ (c.step e).woken) ∧
    (e ≠ .stopConsumer i → last.Forgotten c.deliveries.length i ∧
      ∀ key flagged, i ∉ last.select key flagged) := by
  intro c last
  have hattached : c.Attached := by
    rw [show c = _ from calls_eq _ _]
    exact (attached_empty queueSize filterSize).run _
  have hlast : last = (c.step e).run (after.filterMap Call.event?) := calls_eq _ _
  -- the consumer is dead after the cancellation, and whatever follows keeps it so
  obtain ⟨k₁, hk₁, hdead₁⟩ := he.dead hattached hk
  obtain ⟨k', hk', hdead⟩ := dead_run hk₁ hdead₁ (after.filterMap Call.event?)
  rw [← hlast] at hk'
  obtain ⟨htake, hends⟩ := take_of_dead hk' hdead
  refine ⟨⟨k', hk', hdead, hends⟩, htake, fun d hnext => ?_, he.released hattached hk,
    fun hremoved => ?_⟩
  · -- a completed send comes to nobody
    have hsound : ((ChannelRun.opening queueSize filterSize).run (before.filterMap Call.event? ++
        e :: after.filterMap Call.event?) : ChannelRun ℓ π).Sound :=
      (ChannelRun.sound_opening queueSize filterSize).run _
    have hchannel : ((ChannelRun.opening queueSize filterSize).run (before.filterMap Call.event? ++
        e :: after.filterMap Call.event?) : ChannelRun ℓ π).channel = last := by
      rw [ChannelRun.channel_run, hlast, show c = _ from calls_eq _ _]
      exact List.foldl_append
    refine advance_of_canceled hk' hdead.canceled (fun hsent => ?_) hnext
    obtain ⟨s, hs, hhead⟩ := Option.bind_eq_some_iff.1 hnext
    rw [← hchannel] at hs hsent
    rw [(hsound.tracks hs).remaining_eq hsent] at hhead
    simp at hhead
  · have hforgotten := (he.forgotten hk hremoved).run (after.filterMap Call.event?)
    rw [← hlast] at hforgotten
    exact ⟨hforgotten, fun key flagged hi => hforgotten.not_registered (mem_of_mem_select hi)⟩

/-- A consumer with a message in hand, another in its queue and a send in line. -/
def busyCalls : List (Call String Nat) :=
  let send (n : Nat) : Call String Nat := .event (.send ⟨⟨"BTC/USDT", none⟩, n⟩)
  [.event .issueProducer, .event (.subscribe "busy" {}), send 1, .event (.advance 0),
    .event (.take 0), send 2, .event (.advance 1), send 3, .event (.advance 2)]

/-- A stop and a new start of the channel, another consumer, and more sends. -/
def callsAfterStop : List (Call String Nat) :=
  [.event .start, .runConsumer 0, .event (.subscribe "new" {}), .event (.advance 2),
    .event (.send ⟨⟨"BTC/USDT", none⟩, 4⟩), .event (.advance 3), .event (.finish 0),
    .event (.take 0)]

/-- After the stop the busy consumer has handled the first message and no other. -/
theorem canceled_for_good_busy :
    let c := (empty 1 1).calls busyCalls
    let last := (c.step .stop).calls callsAfterStop
    (∃ k k', c.consumers[0]? = some k ∧ last.consumers[0]? = some k' ∧ k.Dead k' ∧
      k.handled = [] ∧ k.queue ≠ [] ∧ k.waiting = [2]) ∧
    last.consumers[0]?.map (·.handled.map (·.payload)) = some [1] ∧
    last.consumers[0]?.map (·.queue.length) = some 0 ∧
    last.consumers[1]?.map (·.queue.map (·.payload)) = some [4] ∧
    ∀ key flagged, 0 ∉ last.select key flagged := by
  intro c last
  have hbusy : c.consumers[0]?.any (fun k => k.handled.isEmpty && !k.queue.isEmpty &&
      k.waiting == [2]) = true := by decide +kernel
  obtain ⟨k, hk, hbusy⟩ := (Option.any_eq_true _ _).1 hbusy
  simp only [Bool.and_eq_true, List.isEmpty_iff, Bool.not_eq_true', List.isEmpty_eq_false_iff,
    beq_iff_eq] at hbusy
  obtain ⟨⟨k', hk', hdead, -⟩, -, -, -, hforgotten⟩ :=
    canceled_for_good 1 1 busyCalls hk (.stop (by decide +kernel)) callsAfterStop
  exact ⟨⟨k, k', hk, hk', hdead, hbusy.1.1, hbusy.1.2, hbusy.2⟩, by decide +kernel,
    by decide +kernel, by decide +kernel, (hforgotten (by simp)).2⟩

end Channel

end MarketEngine
