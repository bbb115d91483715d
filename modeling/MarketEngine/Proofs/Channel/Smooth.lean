import MarketEngine.Channel.Network
import MarketEngine.Proofs.Channel.Run
import MarketEngine.Proofs.Lists
/-!
# Channels that nobody stops

On a channel that is never stopped and whose consumers are never canceled, sends line up only at
full queues, and every send in line comes to that consumer next (`Channel.Smooth`). Who can do
something there (`Channel.Due`) and how much work is left depend on the consumers and the sends
alone, so what a change of one consumer or one send does to both can be said once.
-/

namespace MarketEngine

variable {ℓ π : Type}

/-- A consumer that is at work, where `next?` says which consumer a send comes to next: the sends in
line come to this one next, each stands in line once, and there is a line only at a full queue. -/
structure Consumer.Fair (capacity : Nat) (next? : Nat → Option Nat) (i : Nat) (k : Consumer ℓ π) :
    Prop where
  canceled : k.canceled = false
  ended : k.ended = false
  nodup : (k.waiting ++ k.granted).Nodup
  next_eq : ∀ d ∈ k.waiting ++ k.granted, next? d = some i
  full : k.waiting ≠ [] → capacity ≤ k.taken

namespace Consumer.Fair

variable {capacity : Nat} {next? : Nat → Option Nat} {i : Nat} {k : Consumer ℓ π}

/-- A consumer at work is idle exactly when it has no message in hand. -/
theorem isIdle (h : k.Fair capacity next? i) : k.isIdle = k.held.isNone := by
  rw [Consumer.isIdle, h.ended]
  exact Bool.and_true _

/-- A place that becomes free is kept for the first in line. -/
theorem take (h : k.Fair capacity next? i) {m : Message π} {queue : List (Message π)}
    (hqueue : k.queue = m :: queue) {d : Nat} {waiting : List Nat}
    (hwaiting : k.waiting = d :: waiting) :
    Fair capacity next? i
      { k with queue, held := some m, waiting, granted := k.granted ++ [d] } := by
  have hperm : (waiting ++ (k.granted ++ [d])).Perm (k.waiting ++ k.granted) := by
    rw [hwaiting, ← List.append_assoc]
    exact List.perm_append_comm
  refine ⟨h.canceled, h.ended, hperm.nodup_iff.2 h.nodup,
    fun e he => h.next_eq e (hperm.mem_iff.1 he), fun _ => ?_⟩
  have hfull := h.full (by simp [hwaiting])
  simp only [taken, hqueue, List.length_cons, List.length_append, List.length_nil] at hfull ⊢
  omega

/-- A message takes the place that was kept for it, or any place where nobody is in line. -/
theorem enqueue (h : k.Fair capacity next? i) (m : Message π) {d : Nat}
    (hplace : d ∈ k.granted ∨ k.waiting = []) :
    Fair capacity next? i { k with queue := k.queue ++ [m], granted := k.granted.erase d } := by
  have hsub : (k.waiting ++ k.granted.erase d).Sublist (k.waiting ++ k.granted) :=
    List.Sublist.append_left List.erase_sublist _
  refine ⟨h.canceled, h.ended, h.nodup.sublist hsub, fun e he => h.next_eq e (hsub.subset he),
    fun hwaiting => ?_⟩
  have hgranted := hplace.resolve_right hwaiting
  have hfull := h.full hwaiting
  have hlength := List.length_erase_of_mem hgranted
  have hpos := List.length_pos_of_mem hgranted
  simp only [taken, List.length_append, List.length_singleton] at hfull ⊢
  omega

/-- A send whose message takes a place does not stand in line any more. -/
theorem not_mem_enqueue (h : k.Fair capacity next? i) {d : Nat}
    (hplace : d ∈ k.granted ∨ k.waiting = []) : d ∉ k.waiting ++ k.granted.erase d := by
  obtain ⟨-, hgranted, hdisjoint⟩ := List.nodup_append'.1 h.nodup
  rw [List.mem_append, not_or]
  refine ⟨fun hwaits => ?_, hgranted.not_mem_erase⟩
  rcases hplace with hkept | hnobody
  · exact hdisjoint hwaits hkept
  · rw [hnobody] at hwaits
    exact List.not_mem_nil hwaits

/-- A send for which there is no place stands last in line. -/
theorem lineUp (h : k.Fair capacity next? i) {d : Nat} (hnext : next? d = some i)
    (hgranted : d ∉ k.granted) (hwaiting : d ∉ k.waiting)
    (hfull : k.waiting = [] → capacity ≤ k.taken) :
    Fair capacity next? i { k with waiting := k.waiting ++ [d] } := by
  have hperm : (k.waiting ++ [d] ++ k.granted).Perm (d :: (k.waiting ++ k.granted)) := by
    rw [List.append_assoc, List.singleton_append]
    exact List.perm_middle
  refine ⟨h.canceled, h.ended, ?_, fun e he => ?_, fun _ => ?_⟩
  · rw [hperm.nodup_iff, List.nodup_cons, List.mem_append, not_or]
    exact ⟨⟨hwaiting, hgranted⟩, h.nodup⟩
  · rcases List.mem_cons.1 (hperm.mem_iff.1 he) with rfl | he
    · exact hnext
    · exact h.next_eq e he
  · by_cases hnobody : k.waiting = []
    · exact hfull hnobody
    · exact h.full hnobody

end Consumer.Fair

namespace Channel

/-- Whether a send is started and not completed. -/
def IsUnderWay (c : Channel ℓ π) (d : Nat) : Prop := d < c.deliveries.length ∧ d ∉ c.sent

/-- Whether a consumer is handling a message. -/
def holds (c : Channel ℓ π) (i : Nat) : Bool := c.consumers[i]?.any (·.held.isSome)

/-- How many consumers a send has not yet gone past. -/
def left (c : Channel ℓ π) (d : Nat) : Nat := c.deliveries[d]?.elim 0 (·.remaining.length)

/-- Whether somebody can do something: a consumer with a message to take, or a send that does not
wait in line. -/
def Due (c : Channel ℓ π) : Wake → Prop
  | .consumer i => ∃ k, c.consumers[i]? = some k ∧ k.held = none ∧ k.queue ≠ []
  | .delivery d => c.IsUnderWay d ∧
    ∀ i k, c.next? d = some i → c.consumers[i]? = some k → d ∉ k.waiting

/-- A running channel on which nobody was canceled. -/
structure Smooth (c : Channel ℓ π) : Prop where
  capacity_pos : 0 < c.capacity
  running : c.running = true
  registered_nodup : c.registered.Nodup
  registered_lt : ∀ i ∈ c.registered, i < c.consumers.length
  sent_lt : ∀ d ∈ c.sent, d < c.deliveries.length
  next?_sent : ∀ d ∈ c.sent, c.next? d = none
  fair : ∀ ⦃i : Nat⦄ ⦃k : Consumer ℓ π⦄, c.consumers[i]? = some k → k.Fair c.capacity c.next? i

/-- On such a channel nobody is canceled. -/
theorem Smooth.canceled_eq {c : Channel ℓ π} (h : c.Smooth) {k : Consumer ℓ π}
    (hk : k ∈ c.consumers) : k.canceled = false := by
  obtain ⟨i, hi⟩ := List.getElem?_of_mem hk
  exact (h.fair hi).canceled

/-- Only a send that was started comes to a consumer. -/
theorem lt_of_next? {c : Channel ℓ π} {d i : Nat} (h : c.next? d = some i) :
    d < c.deliveries.length := by
  obtain ⟨s, hs, -⟩ := Option.bind_eq_some_iff.1 h
  exact (List.getElem?_eq_some_iff.1 hs).1

/-- A send that comes to somebody next is not completed. -/
theorem Smooth.isUnderWay {c : Channel ℓ π} (h : c.Smooth) {d i : Nat} (hd : c.next? d = some i) :
    c.IsUnderWay d := by
  refine ⟨lt_of_next? hd, fun hsent => ?_⟩
  rw [h.next?_sent d hsent] at hd
  simp at hd

/-- An empty channel runs, and nobody was canceled on it. -/
theorem smooth_withProducer (queueSize filterSize : Nat) :
    (withProducer (empty queueSize filterSize) : Channel ℓ π).Smooth where
  capacity_pos := Nat.le_max_right queueSize 1
  running := rfl
  registered_nodup := List.nodup_nil
  registered_lt := by simp [withProducer, empty]
  sent_lt := by simp [withProducer, empty]
  next?_sent := by simp [withProducer, empty]
  fair := by simp [withProducer, empty]

/-- Where the sends are the same they come to the same consumers next. -/
theorem next?_congr {c c' : Channel ℓ π} (hdeliveries : c'.deliveries = c.deliveries) :
    c'.next? = c.next? := by
  funext d
  rw [next?, hdeliveries, next?]

/-- Who is noted as woken does not matter, nor does the filter. -/
theorem Smooth.congr {c c' : Channel ℓ π} (h : c.Smooth) (hcapacity : c'.capacity = c.capacity)
    (hrunning : c'.running = c.running) (hregistered : c'.registered = c.registered)
    (hsent : c'.sent = c.sent) (hdeliveries : c'.deliveries = c.deliveries)
    (hconsumers : c'.consumers = c.consumers) : c'.Smooth where
  capacity_pos := hcapacity ▸ h.capacity_pos
  running := hrunning.trans h.running
  registered_nodup := hregistered ▸ h.registered_nodup
  registered_lt := by
    rw [hregistered, hconsumers]
    exact h.registered_lt
  sent_lt := by
    rw [hsent, hdeliveries]
    exact h.sent_lt
  next?_sent := by
    rw [hsent, next?_congr hdeliveries]
    exact h.next?_sent
  fair := by
    rw [hconsumers, hcapacity, next?_congr hdeliveries]
    exact h.fair

/-- Whoever can do something could do so on a channel with the same sends and consumers. -/
theorem Due.congr {c c' : Channel ℓ π} (hsent : c'.sent = c.sent)
    (hdeliveries : c'.deliveries = c.deliveries) (hconsumers : c'.consumers = c.consumers)
    {w : Wake} (h : c'.Due w) : c.Due w := by
  cases w with
  | consumer i =>
    rw [Due, hconsumers] at h
    exact h
  | delivery d =>
    rw [Due, IsUnderWay, next?, hsent, hdeliveries, hconsumers] at h
    exact h

/-! ## Changing a consumer -/

section ModifyConsumer

variable {c : Channel ℓ π} {i : Nat} {f : Consumer ℓ π → Consumer ℓ π} {k : Consumer ℓ π}

/-- A change of a consumer is seen at its place only. -/
theorem getElem?_modifyConsumer (c : Channel ℓ π) (i : Nat) (f : Consumer ℓ π → Consumer ℓ π)
    (j : Nat) : (c.modifyConsumer i f).consumers[j]?
      = if i = j then c.consumers[j]?.map f else c.consumers[j]? := by
  rw [modifyConsumer, List.getElem?_modify]
  split <;> simp

/-- What a change makes of the consumer at its place. -/
theorem getElem?_modifyConsumer_self (f : Consumer ℓ π → Consumer ℓ π)
    (hk : c.consumers[i]? = some k) : (c.modifyConsumer i f).consumers[i]? = some (f k) := by
  rw [getElem?_modifyConsumer, if_pos rfl, hk, Option.map_some]

/-- A channel stays smooth when a consumer changes that is at work afterwards too. -/
theorem Smooth.modifyConsumer (h : c.Smooth) (hk : c.consumers[i]? = some k)
    (hfair : (f k).Fair c.capacity c.next? i) : (c.modifyConsumer i f).Smooth where
  capacity_pos := h.capacity_pos
  running := h.running
  registered_nodup := h.registered_nodup
  registered_lt := by simpa [Channel.modifyConsumer] using h.registered_lt
  sent_lt := h.sent_lt
  next?_sent := h.next?_sent
  fair j k' hk' := by
    by_cases hij : i = j
    · subst hij
      rw [getElem?_modifyConsumer_self f hk, Option.some.injEq] at hk'
      subst hk'
      exact hfair
    · rw [getElem?_modifyConsumer, if_neg hij] at hk'
      exact h.fair hk'

/-- Whether another consumer handles a message does not depend on this one. -/
theorem holds_modifyConsumer (c : Channel ℓ π) (i : Nat) (f : Consumer ℓ π → Consumer ℓ π)
    (j : Nat) : (c.modifyConsumer i f).holds j
      = if i = j then c.consumers[j]?.any (fun k => (f k).held.isSome) else c.holds j := by
  rw [holds, getElem?_modifyConsumer]
  split
  · rw [Option.any_map]
  · rfl

/-- Only the changed consumer can have got something to do, and sends that no longer wait there. -/
theorem due_of_modifyConsumer (hk : c.consumers[i]? = some k) {w : Wake}
    (h : (c.modifyConsumer i f).Due w) :
    c.Due w ∨ ((f k).held = none ∧ (f k).queue ≠ [] ∧ w = .consumer i) ∨
    ∃ d ∈ k.waiting, d ∉ (f k).waiting ∧ w = .delivery d := by
  have hself := getElem?_modifyConsumer_self f hk
  have hother : ∀ {j}, i ≠ j → (c.modifyConsumer i f).consumers[j]? = c.consumers[j]? := by
    intro j hij
    rw [getElem?_modifyConsumer, if_neg hij]
  cases w with
  | consumer j =>
    obtain ⟨k', hk', hheld, hqueue⟩ := h
    by_cases hij : i = j
    · subst hij
      obtain rfl : f k = k' := Option.some.inj (hself.symm.trans hk')
      exact .inr (.inl ⟨hheld, hqueue, rfl⟩)
    · exact .inl ⟨k', (hother hij).symm.trans hk', hheld, hqueue⟩
  | delivery d =>
    obtain ⟨hunderWay, hline⟩ := h
    by_cases hwaits : d ∈ k.waiting ∧ d ∉ (f k).waiting
    · exact .inr (.inr ⟨d, hwaits.1, hwaits.2, rfl⟩)
    · refine .inl ⟨hunderWay, fun j k' hnext hk' hd => ?_⟩
      by_cases hij : i = j
      · subst hij
        obtain rfl : k = k' := Option.some.inj (hk.symm.trans hk')
        exact hwaits ⟨hd, hline i (f k) hnext hself⟩
      · exact hline j k' hnext ((hother hij).trans hk') hd

end ModifyConsumer

/-! ## A send that goes past a consumer -/

section Pass

variable {c : Channel ℓ π} {d : Nat}

/-- A send that goes past a consumer has one less before it, and the other sends have what they had.
-/
theorem getElem?_pass (c : Channel ℓ π) (d e : Nat) : (c.pass d).deliveries[e]?
    = (c.deliveries[e]?).map fun s =>
      if d = e then { s with remaining := s.remaining.tail } else s := by
  rw [pass, modifyDelivery, List.getElem?_modify]
  by_cases he : d = e
  · simp [he]
  · simp [he]

/-- The other sends come to whom they came before. -/
theorem next?_pass_of_ne (c : Channel ℓ π) {e : Nat} (he : d ≠ e) :
    (c.pass d).next? e = c.next? e := by
  simp [next?, getElem?_pass, he]

/-- A send that goes past a consumer is under way as before. -/
theorem isUnderWay_pass (c : Channel ℓ π) (d e : Nat) :
    (c.pass d).IsUnderWay e ↔ c.IsUnderWay e := by
  simp [IsUnderWay, pass, modifyDelivery]

/-- A send that stands in no line can go past its next consumer. -/
theorem Smooth.pass (h : c.Smooth) (hd : d ∉ c.sent)
    (hfree : ∀ (i : Nat) k, c.consumers[i]? = some k → d ∉ k.waiting ++ k.granted) :
    (c.pass d).Smooth where
  capacity_pos := h.capacity_pos
  running := h.running
  registered_nodup := h.registered_nodup
  registered_lt := h.registered_lt
  sent_lt e he := by
    rw [Channel.pass, modifyDelivery, List.length_modify]
    exact h.sent_lt e he
  next?_sent e he := by
    have hne : d ≠ e := fun hde => hd (hde ▸ he)
    rw [c.next?_pass_of_ne hne]
    exact h.next?_sent e he
  fair i k hk := by
    have hfair := h.fair hk
    refine ⟨hfair.canceled, hfair.ended, hfair.nodup, fun e he => ?_, hfair.full⟩
    have hne : d ≠ e := fun hde => hfree i k hk (hde ▸ he)
    rw [c.next?_pass_of_ne hne]
    exact hfair.next_eq e he

/-- Only the send itself may be able to do something that it could not do before. -/
theorem due_of_pass {w : Wake} (h : (c.pass d).Due w) : c.Due w ∨ w = .delivery d := by
  cases w with
  | consumer i => exact .inl h
  | delivery e =>
    by_cases he : d = e
    · exact .inr (by rw [he])
    · obtain ⟨hunderWay, hline⟩ := h
      refine .inl ⟨(c.isUnderWay_pass d e).1 hunderWay, fun i k hnext hk => ?_⟩
      exact hline i k (by rw [c.next?_pass_of_ne he, hnext]) hk

/-- One consumer less is before the send, and as many as before are before the others. -/
theorem left_pass (c : Channel ℓ π) (d e : Nat) :
    (c.pass d).left e = if d = e then c.left e - 1 else c.left e := by
  rw [left, getElem?_pass, left]
  cases c.deliveries[e]? with
  | none => simp
  | some s =>
    by_cases he : d = e
    · simp [he]
    · simp [he]

/-- Nobody has more consumers before it when a send goes past one. -/
theorem left_pass_le (c : Channel ℓ π) (d e : Nat) : (c.pass d).left e ≤ c.left e := by
  rw [left_pass]
  split
  · exact Nat.sub_le _ _
  · exact Nat.le_refl _

/-- A send that had a consumer before it has one less after it went past that. -/
theorem left_pass_self {s : Delivery π} (hs : c.deliveries[d]? = some s) {i : Nat} {rest : List Nat}
    (hremaining : s.remaining = i :: rest) : (c.pass d).left d + 1 = c.left d := by
  rw [left_pass, if_pos rfl]
  simp [left, hs, hremaining]

end Pass

/-! ## The work that is left -/

/-- What every send counts for: nothing once it is completed. -/
def openCounts (c : Channel ℓ π) (f : Delivery π → Nat) : List Nat :=
  c.deliveries.zipIdx.map fun p => if c.isSent p.2 then 0 else f p.1

/-- The sends under way are those that count. -/
theorem sum_map_underWay (c : Channel ℓ π) (f : Delivery π → Nat) :
    (c.underWay.map f).sum = (c.openCounts f).sum := by
  have hcounts : c.openCounts f
      = c.deliveries.zipIdx.map fun p => if !c.isSent p.2 then f p.1 else 0 := by
    rw [openCounts]
    congr 1
    funext p
    cases c.isSent p.2 <;> rfl
  rw [underWay, List.map_map, hcounts, ← sum_map_filter]
  rfl

/-- What a send counts for, at its place. -/
theorem getElem?_openCounts (c : Channel ℓ π) (f : Delivery π → Nat) (d : Nat) :
    (c.openCounts f)[d]? = c.deliveries[d]?.map fun s => if d ∈ c.sent then 0 else f s := by
  rw [openCounts, List.getElem?_map, List.getElem?_zipIdx, Option.map_map]
  simp [isSent, Function.comp_def]

/-- What a send under way counts for. -/
def sendWork (cost : Nat) (s : Delivery π) : Nat := s.remaining.length * (cost + 2) + 2

/-- The work on a channel is what its queues and its sends under way count for. -/
theorem channelWork_eq (cost : Nat) (c : Channel ℓ π) : Network.channelWork cost c
    = (c.consumers.map (·.queue.length * cost)).sum + (c.openCounts (sendWork cost)).sum := by
  rw [Network.channelWork, ← List.sum_eq_foldr, ← List.sum_eq_foldr, ← sum_map_underWay]
  rfl

/-- Where the sends are the same they count for the same. -/
theorem openCounts_congr {c c' : Channel ℓ π} (hsent : c'.sent = c.sent)
    (hdeliveries : c'.deliveries = c.deliveries) (f : Delivery π → Nat) :
    c'.openCounts f = c.openCounts f := by
  rw [openCounts, hdeliveries]
  simp only [isSent, hsent]
  rfl

/-- A change of a consumer changes the work by what its queue gains or loses. -/
theorem channelWork_modifyConsumer {c : Channel ℓ π} {i : Nat} {f : Consumer ℓ π → Consumer ℓ π}
    {k : Consumer ℓ π} (hk : c.consumers[i]? = some k) (cost : Nat) :
    Network.channelWork cost (c.modifyConsumer i f) + k.queue.length * cost
      = Network.channelWork cost c + (f k).queue.length * cost := by
  have hqueues := sum_map_modify (f := fun k : Consumer ℓ π => k.queue.length * cost) (g := f) hk
  have hcounts : (c.modifyConsumer i f).openCounts (sendWork cost) = c.openCounts (sendWork cost) :=
    openCounts_congr rfl rfl _
  rw [channelWork_eq, channelWork_eq, hcounts]
  show ((c.consumers.modify i f).map _).sum + _ + _ = _
  omega

/-- A send that goes past a consumer has done its work for that one. -/
theorem channelWork_pass {c : Channel ℓ π} {d : Nat} {s : Delivery π}
    (hs : c.deliveries[d]? = some s) (hd : d ∉ c.sent) {i : Nat} {rest : List Nat}
    (hremaining : s.remaining = i :: rest) (cost : Nat) :
    Network.channelWork cost (c.pass d) + (cost + 2) = Network.channelWork cost c := by
  have hcounts : (c.pass d).openCounts (sendWork cost)
      = (c.openCounts (sendWork cost)).modify d fun _ => rest.length * (cost + 2) + 2 := by
    refine List.ext_getElem? fun e => ?_
    rw [List.getElem?_modify, getElem?_openCounts, getElem?_openCounts, getElem?_pass]
    show Option.map _ (Option.map _ _) = _
    by_cases he : d = e
    · subst he
      simp [hs, sendWork, hremaining, show d ∉ (c.pass d).sent from hd]
    · simp [he, show (c.pass d).sent = c.sent from rfl]
  have hcount : (c.openCounts (sendWork cost))[d]? = some ((rest.length + 1) * (cost + 2) + 2) := by
    rw [getElem?_openCounts, hs, Option.map_some, if_neg hd, sendWork, hremaining,
      List.length_cons]
  have hmodify := sum_map_modify (f := id) (g := fun _ => rest.length * (cost + 2) + 2) hcount
  rw [List.map_id, List.map_id] at hmodify
  simp only [id, Nat.succ_mul] at hmodify
  rw [channelWork_eq, channelWork_eq, hcounts]
  show (c.consumers.map _).sum + List.sum _ + (cost + 2) = (c.consumers.map _).sum + List.sum _
  omega

/-- A send that is completed does not count any more. -/
theorem channelWork_sent {c : Channel ℓ π} (c' : Channel ℓ π) {d : Nat} {s : Delivery π}
    (hs : c.deliveries[d]? = some s) (hd : d ∉ c.sent) (hsent : c'.sent = c.sent ++ [d])
    (hdeliveries : c'.deliveries = c.deliveries) (hconsumers : c'.consumers = c.consumers)
    (cost : Nat) :
    Network.channelWork cost c' + sendWork cost s = Network.channelWork cost c := by
  have hcounts : c'.openCounts (sendWork cost)
      = (c.openCounts (sendWork cost)).modify d fun _ => 0 := by
    refine List.ext_getElem? fun e => ?_
    rw [List.getElem?_modify, getElem?_openCounts, getElem?_openCounts, hdeliveries, hsent]
    by_cases he : d = e
    · subst he
      simp [hs]
    · simp [he, Ne.symm he]
  have hcount : (c.openCounts (sendWork cost))[d]? = some (sendWork cost s) := by
    rw [getElem?_openCounts, hs, Option.map_some, if_neg hd]
  have hmodify := sum_map_modify (f := id) (g := fun _ => 0) hcount
  rw [List.map_id, List.map_id] at hmodify
  simp only [id] at hmodify
  rw [channelWork_eq, channelWork_eq, hcounts, hconsumers]
  omega

end Channel

end MarketEngine
