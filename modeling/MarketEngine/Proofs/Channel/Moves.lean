import MarketEngine.Proofs.Channel.Activity
import MarketEngine.Proofs.Channel.Delivery
import MarketEngine.Proofs.Channel.Smooth
import Mathlib.Data.List.Perm.Subperm
/-!
# Steps on a channel that nobody stops

Each operation keeps a channel smooth, and whoever can do something after it could do so before, or
is woken, or is the one whose turn it was (`Channel.Moves`). What a turn of a consumer and a step of
a send may come to is said once each, with the work that they take off the channel
(`Channel.Taking`, `Channel.Advancing`).
-/

namespace MarketEngine

variable {ℓ π : Type}

namespace Channel

/-- A step on a channel, where `turn` is whose turn it was. -/
structure Moves (c c' : Channel ℓ π) (turn : Wake) : Prop where
  smooth : c'.Smooth
  length_le : c.deliveries.length ≤ c'.deliveries.length
  underWay : ∀ ⦃d : Nat⦄, c.IsUnderWay d → c'.IsUnderWay d ∨ turn = .delivery d
  left_le : ∀ ⦃d : Nat⦄, d < c.deliveries.length → c'.left d ≤ c.left d
  due : ∀ ⦃w : Wake⦄, c'.Due w → c.Due w ∨ w ∈ c'.woken ∨ w = turn
  woken : ∀ ⦃d : Nat⦄, .delivery d ∈ c'.woken → .delivery d ∈ c.woken ∨ d < c'.deliveries.length

/-- Nothing happens. -/
theorem Smooth.moves_refl {c : Channel ℓ π} (h : c.Smooth) (turn : Wake) : c.Moves c turn where
  smooth := h
  length_le := Nat.le_refl _
  underWay _ hd := .inl hd
  left_le _ _ := Nat.le_refl _
  due _ hw := .inl hw
  woken _ hd := .inl hd

/-- Two parts of one step, where whoever is woken stays so. -/
theorem Moves.trans {c c' c'' : Channel ℓ π} {turn : Wake} (h : c.Moves c' turn)
    (h' : c'.Moves c'' turn) (hwoken : c'.woken ⊆ c''.woken) : c.Moves c'' turn where
  smooth := h'.smooth
  length_le := Nat.le_trans h.length_le h'.length_le
  underWay d hd := (h.underWay hd).elim (fun hd' => h'.underWay hd') .inr
  left_le d hd := Nat.le_trans (h'.left_le (Nat.lt_of_lt_of_le hd h.length_le)) (h.left_le hd)
  due w hw := by
    rcases h'.due hw with hw' | hnew | hturn
    · exact (h.due hw').imp id (Or.imp (fun hold => hwoken hold) id)
    · exact .inr (.inl hnew)
    · exact .inr (.inr hturn)
  woken d hd := by
    rcases h'.woken hd with hd' | hlt
    · exact (h.woken hd').imp id fun hlt => Nat.lt_of_lt_of_le hlt h'.length_le
    · exact .inr hlt

section Parts

variable {c : Channel ℓ π} {turn : Wake}

/-- Waking somebody who is there moves nothing else. -/
theorem Smooth.moves_wake (h : c.Smooth) {who : List Wake}
    (hwho : ∀ d, .delivery d ∈ who → d < c.deliveries.length) : c.Moves (c.wake who) turn where
  smooth := h.congr rfl rfl rfl rfl rfl rfl
  length_le := Nat.le_refl _
  underWay _ hd := .inl hd
  left_le _ _ := Nat.le_refl _
  due _ hw := .inl (hw.congr rfl rfl rfl)
  woken d hd := (List.mem_append.1 hd).imp id (hwho d)

/-- A consumer changes. Whoever can do something because of it is woken already, or it is the
consumer's turn. -/
theorem Smooth.moves_modifyConsumer (h : c.Smooth) {i : Nat} {k : Consumer ℓ π}
    (hk : c.consumers[i]? = some k) {f : Consumer ℓ π → Consumer ℓ π}
    (hfair : (f k).Fair c.capacity c.next? i)
    (hdue : (f k).held = none → (f k).queue ≠ [] →
      c.Due (.consumer i) ∨ .consumer i ∈ c.woken ∨ .consumer i = turn)
    (hline : ∀ d ∈ k.waiting, d ∉ (f k).waiting → .delivery d ∈ c.woken) :
    c.Moves (c.modifyConsumer i f) turn where
  smooth := h.modifyConsumer hk hfair
  length_le := Nat.le_refl _
  underWay _ hd := .inl hd
  left_le _ _ := Nat.le_refl _
  due w hw := by
    rcases due_of_modifyConsumer hk hw with hold | ⟨hheld, hqueue, rfl⟩ | ⟨d, hd, hd', rfl⟩
    · exact .inl hold
    · exact hdue hheld hqueue
    · exact .inr (.inl (hline d hd hd'))
  woken _ hd := .inl hd

/-- A send that stands in no line goes past its next consumer. -/
theorem Smooth.moves_pass (h : c.Smooth) {d : Nat} (hd : d ∉ c.sent)
    (hfree : ∀ (i : Nat) k, c.consumers[i]? = some k → d ∉ k.waiting ++ k.granted) :
    c.Moves (c.pass d) (.delivery d) where
  smooth := h.pass hd hfree
  length_le := Nat.le_of_eq (List.length_modify ..).symm
  underWay e he := .inl ((c.isUnderWay_pass d e).2 he)
  left_le e _ := c.left_pass_le d e
  due _ hw := (due_of_pass hw).imp id .inr
  woken _ he := .inl he

end Parts

/-! ## The turn of a consumer -/

/-- What the turn of a consumer that is not handling a message may come to. -/
inductive Taking (c : Channel ℓ π) (i : Nat) : Channel ℓ π × Option (Message π) → Prop
  | nothing (hidle : ¬c.Due (.consumer i)) : Taking c i (c, none)
  | message {k : Consumer ℓ π} {m : Message π} {c' : Channel ℓ π}
    (hk : c.consumers[i]? = some k) (hmoves : c.Moves c' (.consumer i))
    (hidle : ¬c'.Due (.consumer i)) (hholds : ∀ j, c'.holds j = (c.holds j || j == i))
    (hwoken : c'.woken.length ≤ c.woken.length + 1)
    (hwork : ∀ cost, Network.channelWork cost c' + cost = Network.channelWork cost c) :
    Taking c i (c', some m)

/-- A consumer takes its next message, and perhaps lets a send out of the line. -/
theorem Smooth.taking {c : Channel ℓ π} (h : c.Smooth) {i : Nat} {k : Consumer ℓ π}
    (hk : c.consumers[i]? = some k) {m : Message π} {queue : List (Message π)}
    (hqueue : k.queue = m :: queue) {f : Consumer ℓ π → Consumer ℓ π}
    (hheld : (f k).held = some m) (hqueue' : (f k).queue = queue)
    (hfair : (f k).Fair c.capacity c.next? i) (who : List Wake) (hwho : who.length ≤ 1)
    (hexists : ∀ d, .delivery d ∈ who → d < c.deliveries.length)
    (hwaiting : ∀ d ∈ k.waiting, d ∉ (f k).waiting → .delivery d ∈ who) :
    c.Taking i ((c.modifyConsumer i f).wake who, some m) := by
  -- a send that leaves the line is woken, as it is due then
  have hwake : c.Moves (c.wake who) (.consumer i) := h.moves_wake hexists
  have hmodify : (c.wake who).Moves ((c.wake who).modifyConsumer i f) (.consumer i) :=
    hwake.smooth.moves_modifyConsumer hk hfair (fun _ _ => .inr (.inr rfl)) fun d hd hd' =>
      List.mem_append_right _ (hwaiting d hd hd')
  refine .message hk (hwake.trans hmodify (List.Subset.refl _)) (fun hdue => ?_) (fun j => ?_) ?_
    fun cost => ?_
  · obtain ⟨k', hk', hnone, -⟩ := hdue
    obtain rfl : f k = k' := Option.some.inj ((getElem?_modifyConsumer_self f hk).symm.trans hk')
    rw [hheld] at hnone
    simp at hnone
  · show (c.modifyConsumer i f).holds j = _
    rw [holds_modifyConsumer]
    by_cases hij : i = j
    · subst hij
      simp [hk, hheld]
    · simp [hij, Ne.symm hij]
  · show (c.woken ++ who).length ≤ _
    rw [List.length_append]
    exact Nat.add_le_add_left hwho _
  · have hmodify := channelWork_modifyConsumer (f := f) hk cost
    rw [hqueue', hqueue, List.length_cons, Nat.succ_mul] at hmodify
    show Network.channelWork cost (c.modifyConsumer i f) + cost = _
    omega

/-- A consumer's turn gets it a message if and only if one is queued and none is in hand. -/
theorem Smooth.take {c : Channel ℓ π} (h : c.Smooth) (i : Nat) : c.Taking i (c.take i) := by
  unfold Channel.take
  cases hk : c.consumers[i]? with
  | none =>
    refine .nothing ?_
    rintro ⟨k, hk', -⟩
    simp [hk] at hk'
  | some k =>
    have hfair := h.fair hk
    have hidle : ∀ {P : Prop}, (∀ k', k' = k → k'.held = none → k'.queue ≠ [] → P) →
        c.Due (.consumer i) → P := by
      rintro P hP ⟨k', hk', hheld', hne⟩
      rw [hk, Option.some.injEq] at hk'
      exact hP k' hk'.symm hheld' hne
    simp only [hfair.isIdle, hfair.canceled, Bool.false_eq_true, if_false]
    by_cases hheld : k.held = none
    · rw [if_neg (by simp [hheld])]
      cases hqueue : k.queue with
      | nil => exact .nothing (hidle fun k' hk' _ hne => hne (hk' ▸ hqueue))
      | cons m queue =>
        -- the place in the queue is free then, or goes to whoever is first in line
        cases hwaiting : k.waiting with
        | nil =>
          have hkept : Consumer.Fair c.capacity c.next? i { k with queue, held := some m } :=
            ⟨hfair.canceled, hfair.ended, hfair.nodup, hfair.next_eq,
              fun hne => absurd hwaiting hne⟩
          have htaking := h.taking (f := fun k => { k with queue, held := some m }) hk hqueue rfl
            rfl hkept [] (Nat.zero_le 1) (fun d hd => absurd hd List.not_mem_nil)
            fun d hd hd' => absurd hd hd'
          have hnobody : (c.modifyConsumer i fun k => { k with queue, held := some m }).wake []
              = c.modifyConsumer i fun k => { k with queue, held := some m } := by
            simp [wake]
          rw [hnobody] at htaking
          exact htaking
        | cons d waiting =>
          have hnext := hfair.next_eq d (by simp [hwaiting])
          refine h.taking (f := fun k =>
              { k with queue, held := some m, waiting, granted := k.granted ++ [d] })
            hk hqueue rfl rfl (hfair.take hqueue hwaiting) [.delivery d] (Nat.le_refl 1)
            (fun e he => ?_) fun e he he' => ?_
          · cases List.mem_singleton.1 he
            exact lt_of_next? hnext
          · rw [hwaiting, List.mem_cons] at he
            rw [he.resolve_right he']
            exact List.mem_singleton_self _
    · rw [if_pos (by simpa [Option.isSome_iff_ne_none] using hheld)]
      exact .nothing (hidle fun k' hk' hheld' _ => hheld (hk' ▸ hheld'))

/-- A consumer is done with its message and may take another. -/
theorem Smooth.finish {c : Channel ℓ π} (h : c.Smooth) (i : Nat) :
    c.Moves (c.finish i) (.consumer i) := by
  cases hk : c.consumers[i]? with
  | none =>
    have hlength := List.getElem?_eq_none_iff.1 hk
    rw [Channel.finish, Channel.modifyConsumer, List.modify_eq_self hlength]
    exact h.moves_refl _
  | some k =>
    have hfair := h.fair hk
    exact h.moves_modifyConsumer hk
      ⟨hfair.canceled, hfair.ended, hfair.nodup, hfair.next_eq, hfair.full⟩
      (fun _ _ => .inr (.inr rfl)) fun d hd hd' => absurd hd hd'

/-- Who finishes has nothing in hand, and the others have what they had. -/
theorem holds_finish (c : Channel ℓ π) (i j : Nat) :
    (c.finish i).holds j = (c.holds j && j != i) := by
  rw [finish, holds_modifyConsumer]
  by_cases hij : i = j
  · simp [hij]
  · simp [hij, Ne.symm hij]

/-- A message in hand is not among the work that is left, so finishing it leaves that as it is. -/
theorem channelWork_finish (c : Channel ℓ π) (i cost : Nat) :
    Network.channelWork cost (c.finish i) = Network.channelWork cost c := by
  cases hk : c.consumers[i]? with
  | none =>
    rw [finish, modifyConsumer, List.modify_eq_self (List.getElem?_eq_none_iff.1 hk)]
  | some k =>
    have hmodify := channelWork_modifyConsumer (c := c) (i := i)
      (f := fun k => { k with held := none, handled := k.handled ++ k.held.toList }) hk cost
    exact Nat.add_right_cancel hmodify

/-! ## A step of a send -/

/-- What a step of a send may come to. -/
inductive Advancing (c : Channel ℓ π) (d : Nat) : Channel ℓ π × Progress → Prop
  | moved {c' : Channel ℓ π} (hd : c'.IsUnderWay d) (hmoves : c.Moves c' (.delivery d))
    (hholds : ∀ j, c'.holds j = c.holds j)
    (hwoken : c'.woken = c.woken ∨ ∃ i, c'.woken = c.woken ++ [.consumer i])
    (hleft : c'.left d + 1 = c.left d)
    (hwork : ∀ cost, Network.channelWork cost c' + 2 ≤ Network.channelWork cost c) :
    Advancing c d (c', .moved)
  | blocked {c' : Channel ℓ π} (hd : c'.IsUnderWay d) (hmoves : c.Moves c' (.delivery d))
    (hline : ¬c'.Due (.delivery d)) (hholds : ∀ j, c'.holds j = c.holds j)
    (hwoken : c'.woken = c.woken)
    (hwork : ∀ cost, Network.channelWork cost c' = Network.channelWork cost c) :
    Advancing c d (c', .blocked)
  | completed {c' : Channel ℓ π} (hd : ¬c'.IsUnderWay d) (hmoves : c.Moves c' (.delivery d))
    (hholds : ∀ j, c'.holds j = c.holds j) (hwoken : c'.woken = c.woken)
    (hwork : ∀ cost, Network.channelWork cost c' ≤ Network.channelWork cost c) :
    Advancing c d (c', .completed)

section Advancing

variable {c : Channel ℓ π} {d : Nat} {s : Delivery π}

/-- A send that is not under way has nothing to do. -/
theorem Smooth.ended (h : c.Smooth) (hd : ¬c.IsUnderWay d) : c.Advancing d (c, .completed) :=
  .completed hd (h.moves_refl _) (fun _ => rfl) rfl fun _ => Nat.le_refl _

/-- A send that is done with all its consumers completes. -/
theorem Smooth.completing (h : c.Smooth) (hs : c.deliveries[d]? = some s) (hd : c.IsUnderWay d)
    (hnone : s.remaining = []) (filter : SendFilter) :
    c.Advancing d ({ c with filter, sent := c.sent ++ [d] }, .completed) := by
  have hunderWay : ∀ e, IsUnderWay { c with filter, sent := c.sent ++ [d] } e
      ↔ c.IsUnderWay e ∧ e ≠ d := by
    intro e
    simp only [IsUnderWay, List.mem_append, List.mem_singleton, not_or, and_assoc]
  have hsent : ∀ e ∈ c.sent ++ [d], e ∈ c.sent ∨ e = d := by simp
  have hsmooth : Smooth { c with filter, sent := c.sent ++ [d] } := by
    refine ⟨h.capacity_pos, h.running, h.registered_nodup, h.registered_lt, fun e he => ?_,
      fun e he => ?_, h.fair⟩
    · rcases hsent e he with hold | rfl
      · exact h.sent_lt e hold
      · exact hd.1
    · rcases hsent e he with hold | rfl
      · exact h.next?_sent e hold
      · show c.next? e = none
        rw [next?, hs, Option.bind_some, hnone, List.head?_nil]
  refine .completed (fun hd' => ((hunderWay d).1 hd').2 rfl) ⟨hsmooth, Nat.le_refl _,
    fun e he => ?_, fun _ _ => Nat.le_refl _, fun w hw => .inl ?_, fun _ hd => .inl hd⟩
    (fun _ => rfl) rfl fun cost => ?_
  · by_cases hde : e = d
    · exact .inr (by rw [hde])
    · exact .inl ((hunderWay e).2 ⟨he, hde⟩)
  · cases w with
    | consumer i => exact hw
    | delivery e => exact ⟨((hunderWay e).1 hw.1).1, hw.2⟩
  · have hwork := channelWork_sent { c with filter, sent := c.sent ++ [d] } hs hd.2 rfl rfl rfl cost
    exact Nat.le_of_add_right_le (Nat.le_of_eq hwork)

/-- A send goes past a consumer that does not exist. -/
theorem Smooth.skipping (h : c.Smooth) (hs : c.deliveries[d]? = some s) (hd : c.IsUnderWay d)
    {i : Nat} {rest : List Nat} (hremaining : s.remaining = i :: rest)
    (hnone : c.consumers[i]? = none) : c.Advancing d (c.pass d, .moved) := by
  have hnext : c.next? d = some i := by simp [next?, hs, hremaining]
  have hmoves : c.Moves (c.pass d) (.delivery d) := by
    refine h.moves_pass hd.2 fun j k hk hline => ?_
    obtain rfl : i = j := Option.some.inj (hnext.symm.trans ((h.fair hk).next_eq d hline))
    simp [hnone] at hk
  refine .moved ((c.isUnderWay_pass d d).2 hd) hmoves (fun _ => rfl) (.inl rfl)
    (left_pass_self hs hremaining) fun cost => ?_
  have hpass := channelWork_pass hs hd.2 hremaining cost
  omega

/-- A send that has a place in the queue of its next consumer leaves its message there. -/
theorem Smooth.enqueuing (h : c.Smooth) (hs : c.deliveries[d]? = some s) (hd : c.IsUnderWay d)
    {i : Nat} {rest : List Nat} (hremaining : s.remaining = i :: rest) {k : Consumer ℓ π}
    (hk : c.consumers[i]? = some k) (hplace : d ∈ k.granted ∨ k.waiting = []) :
    c.Advancing d (c.enqueue d i s.message k, .moved) := by
  have hfair := h.fair hk
  -- three moves: an idle consumer is woken, the queue grows, and the send goes past
  obtain ⟨f, hf⟩ : ∃ f : Consumer ℓ π → Consumer ℓ π, f = fun k =>
    { k with queue := k.queue ++ [s.message], granted := k.granted.erase d } := ⟨_, rfl⟩
  obtain ⟨who, hwho⟩ : ∃ who : List Wake, who = if k.isIdle then [.consumer i] else [] := ⟨_, rfl⟩
  have henqueue : c.enqueue d i s.message k = ((c.wake who).modifyConsumer i f).pass d := by
    rw [hf, hwho]
    rfl
  have hwake : c.Moves (c.wake who) (.delivery d) := by
    refine h.moves_wake fun e he => ?_
    rw [hwho] at he
    split at he <;> simp at he
  have hmodify : (c.wake who).Moves ((c.wake who).modifyConsumer i f) (.delivery d) := by
    refine hwake.smooth.moves_modifyConsumer hk ?_ (fun hheld _ => .inr (.inl ?_))
      fun e he he' => ?_
    · rw [hf]
      exact hfair.enqueue s.message hplace
    · -- an idle consumer is woken
      rw [hf] at hheld
      have hidle : k.isIdle = true := by
        rw [hfair.isIdle, Option.isNone_iff_eq_none]
        exact hheld
      rw [hwho, if_pos hidle]
      exact List.mem_append_right _ (List.mem_singleton_self _)
    · rw [hf] at he'
      exact absurd he he'
  have hpass : ((c.wake who).modifyConsumer i f).Moves (((c.wake who).modifyConsumer i f).pass d)
      (.delivery d) := by
    refine hmodify.smooth.moves_pass hd.2 fun j k' hk' hline => ?_
    have hnext : c.next? d = some i := by simp [next?, hs, hremaining]
    have hnext' := (hmodify.smooth.fair hk').next_eq d hline
    obtain rfl : i = j := Option.some.inj (hnext.symm.trans hnext')
    obtain rfl : f k = k' := Option.some.inj ((getElem?_modifyConsumer_self f hk).symm.trans hk')
    rw [hf] at hline
    exact hfair.not_mem_enqueue hplace hline
  rw [henqueue]
  refine .moved ((isUnderWay_pass (c.modifyConsumer i f) d d).2 hd)
    ((hwake.trans hmodify (List.Subset.refl _)).trans hpass (List.Subset.refl _)) (fun j => ?_) ?_
    (left_pass_self (c := c.modifyConsumer i f) hs hremaining) fun cost => ?_
  · show (c.modifyConsumer i f).holds j = c.holds j
    rw [holds_modifyConsumer, hf]
    split
    · rfl
    · rfl
  · show c.woken ++ who = c.woken ∨ _
    rw [hwho]
    split
    · exact .inr ⟨i, rfl⟩
    · exact .inl (List.append_nil _)
  · have hpass := channelWork_pass (c := c.modifyConsumer i f) hs hd.2 hremaining cost
    have hmodify := channelWork_modifyConsumer (f := f) hk cost
    have hqueue : (f k).queue.length = k.queue.length + 1 := by
      rw [hf]
      exact List.length_append
    rw [hqueue, Nat.succ_mul] at hmodify
    show Network.channelWork cost ((c.modifyConsumer i f).pass d) + 2 ≤ _
    omega

/-- A send for which there is no place lines up. -/
theorem Smooth.liningUp (h : c.Smooth) (hd : c.IsUnderWay d) {i : Nat} (hnext : c.next? d = some i)
    {k : Consumer ℓ π} (hk : c.consumers[i]? = some k) (hgranted : d ∉ k.granted)
    (hwaiting : d ∉ k.waiting) (hfull : k.waiting = [] → c.capacity ≤ k.taken) :
    c.Advancing d (c.modifyConsumer i (fun k => { k with waiting := k.waiting ++ [d] }),
      .blocked) := by
  have hmoves : c.Moves (c.modifyConsumer i fun k => { k with waiting := k.waiting ++ [d] })
      (.delivery d) :=
    h.moves_modifyConsumer hk ((h.fair hk).lineUp hnext hgranted hwaiting hfull)
      (fun hheld hqueue => .inl ⟨k, hk, hheld, hqueue⟩)
      fun e he he' => absurd (List.mem_append_left _ he) he'
  refine .blocked hd hmoves (fun hdue => ?_) (fun j => ?_) rfl fun cost => ?_
  · exact hdue.2 i _ hnext (getElem?_modifyConsumer_self _ hk)
      (List.mem_append_right _ (List.mem_singleton_self d))
  · rw [holds_modifyConsumer]
    split
    · rfl
    · rfl
  · exact Nat.add_right_cancel (channelWork_modifyConsumer hk cost)

/-- A step of a send moves it past a consumer, blocks it in line, or completes it. Since nobody is
canceled, a send is never passed by. -/
theorem Smooth.advance (h : c.Smooth) (d : Nat) : c.Advancing d (c.advance d) := by
  unfold Channel.advance
  cases hs : c.deliveries[d]? with
  | none => exact h.ended fun hd => absurd hd.1 (by simpa using hs)
  | some s =>
    by_cases hsent : c.isSent d
    · simp only [hsent, if_true]
      exact h.ended fun hd => hd.2 (by simpa [isSent] using hsent)
    · have hd : c.IsUnderWay d :=
        ⟨(List.getElem?_eq_some_iff.1 hs).1, by simpa [isSent] using hsent⟩
      simp only [hsent, Bool.false_eq_true, if_false]
      cases hremaining : s.remaining with
      | nil => exact h.completing hs hd hremaining _
      | cons i rest =>
        have hnext : c.next? d = some i := by simp [next?, hs, hremaining]
        cases hk : c.consumers[i]? with
        | none =>
          simp only [hk]
          exact h.skipping hs hd hremaining hk
        | some k =>
          -- there is a place for it, it stands in line, or it gets in line now
          simp only [hk, (h.fair hk).canceled, Bool.false_eq_true, if_false]
          by_cases hplace :
              (k.granted.contains d || (k.waiting.isEmpty && k.taken < c.capacity)) = true
          · rw [if_pos hplace]
            refine h.enqueuing hs hd hremaining hk ?_
            simp only [Bool.or_eq_true, List.contains_iff_mem, Bool.and_eq_true,
              List.isEmpty_iff] at hplace
            exact hplace.imp id And.left
          · rw [if_neg hplace]
            simp only [Bool.or_eq_true, List.contains_iff_mem, Bool.and_eq_true,
              List.isEmpty_iff, decide_eq_true_eq, not_or, not_and, Nat.not_lt] at hplace
            by_cases hwaiting : k.waiting.contains d = true
            · -- it stands in line already
              rw [if_pos hwaiting]
              refine .blocked hd (h.moves_refl _) (fun hdue => ?_) (fun _ => rfl) rfl fun _ => rfl
              exact hdue.2 i k hnext hk (List.contains_iff_mem.1 hwaiting)
            · rw [if_neg hwaiting]
              rw [List.contains_iff_mem] at hwaiting
              exact h.liningUp hd hnext hk hplace.1 hwaiting hplace.2

end Advancing

/-- Nobody comes or goes when a send goes on. -/
theorem length_advance (c : Channel ℓ π) (d : Nat) :
    (c.advance d).1.consumers.length = c.consumers.length := by
  have hadvance := c.advance_spec d
  generalize c.advance d = result at hadvance ⊢
  cases hadvance with
  | ended => rfl
  | completed => rfl
  | moved hpassing => exact hpassing.length_eq
  | blocked hkept => exact hkept.length_eq

/-! ## Sends and consumers that come about -/

/-- A send that starts has at most all consumers before it. -/
structure Starts (c c' : Channel ℓ π) : Prop where
  moves : c.Moves c' (.delivery c.deliveries.length)
  isUnderWay : c'.IsUnderWay c.deliveries.length
  holds_eq : ∀ j, c'.holds j = c.holds j
  woken_eq : c'.woken = c.woken
  work_le : ∀ cost, Network.channelWork cost c'
    ≤ Network.channelWork cost c + c.consumers.length * (cost + 2) + 2

/-- A send selects no more consumers than there are. -/
theorem Smooth.length_select_le {c : Channel ℓ π} (h : c.Smooth) (key : RoutingKey)
    (flagged : Bool) : (c.select key flagged).length ≤ c.consumers.length := by
  have hsubset : c.select key flagged ⊆ List.range c.consumers.length := by
    intro i hi
    exact List.mem_range.2 (h.registered_lt i (mem_of_mem_select hi))
  have hnodup := nodup_select h.registered_nodup key flagged
  have hlength := (List.subperm_of_subset hnodup hsubset).length_le
  rw [List.length_range] at hlength
  exact hlength

section Append

variable {c c' : Channel ℓ π} {delivery : Delivery π} {d : Nat}

/-- A new send is behind those that were there. -/
theorem getElem?_append (hdeliveries : c'.deliveries = c.deliveries ++ [delivery])
    (hd : d < c.deliveries.length) : c'.deliveries[d]? = c.deliveries[d]? := by
  rw [hdeliveries, List.getElem?_append_left hd]

/-- A new send changes nobody's next consumer. -/
theorem next?_append (hdeliveries : c'.deliveries = c.deliveries ++ [delivery])
    (hd : d < c.deliveries.length) : c'.next? d = c.next? d := by
  rw [next?, getElem?_append hdeliveries hd, next?]

/-- A new send changes nothing for those that were under way. -/
theorem isUnderWay_append (hdeliveries : c'.deliveries = c.deliveries ++ [delivery])
    (hsent : c'.sent = c.sent) (hd : d < c.deliveries.length) :
    c'.IsUnderWay d ↔ c.IsUnderWay d := by
  have hlt : d < c.deliveries.length + 1 := Nat.lt_succ_of_lt hd
  simp [IsUnderWay, hdeliveries, hsent, hd, hlt]

/-- A send that does not exist yet is not completed. -/
theorem Smooth.not_mem_sent (h : c.Smooth) : c.deliveries.length ∉ c.sent :=
  fun hd => Nat.lt_irrefl _ (h.sent_lt _ hd)

/-- A send that starts stands in no line yet. -/
theorem Smooth.append (h : c.Smooth) (filter : SendFilter) (delivery : Delivery π) :
    Smooth { c with filter, deliveries := c.deliveries ++ [delivery] } where
  capacity_pos := h.capacity_pos
  running := h.running
  registered_nodup := h.registered_nodup
  registered_lt := h.registered_lt
  sent_lt d hd := by
    rw [List.length_append]
    exact Nat.lt_add_right _ (h.sent_lt d hd)
  next?_sent d hd := (next?_append rfl (h.sent_lt d hd)).trans (h.next?_sent d hd)
  fair i k hk := by
    have hfair := h.fair hk
    refine ⟨hfair.canceled, hfair.ended, hfair.nodup, fun d hd => ?_, hfair.full⟩
    have hnext := hfair.next_eq d hd
    exact (next?_append rfl (lt_of_next? hnext)).trans hnext

/-- A channel stays smooth when a send is added. -/
theorem Smooth.moves_append (h : c.Smooth) (filter : SendFilter) (delivery : Delivery π) :
    c.Moves { c with filter, deliveries := c.deliveries ++ [delivery] }
      (.delivery c.deliveries.length) := by
  have hunderWay : ∀ {d}, d < c.deliveries.length →
      (IsUnderWay { c with filter, deliveries := c.deliveries ++ [delivery] } d ↔ c.IsUnderWay d) :=
    fun hd => isUnderWay_append rfl rfl hd
  refine ⟨h.append filter delivery, ?_, fun d hd => .inl ((hunderWay hd.1).2 hd), fun d hd => ?_,
    fun w hw => ?_, fun _ hd => .inl hd⟩
  · rw [List.length_append]
    exact Nat.le_add_right _ _
  · exact Nat.le_of_eq (by rw [left, getElem?_append rfl hd, left])
  · cases w with
    | consumer i => exact .inl hw
    | delivery d =>
      by_cases hd : d < c.deliveries.length
      · refine .inl ⟨(hunderWay hd).1 hw.1, fun i k hi hk => ?_⟩
        exact hw.2 i k ((next?_append rfl hd).trans hi) hk
      · have hlt := hw.1.1
        rw [List.length_append, List.length_singleton] at hlt
        obtain rfl : d = c.deliveries.length := by omega
        exact .inr (.inr rfl)

/-- A send is started to consumers that the channel has. -/
theorem Smooth.starting (h : c.Smooth) (filter : SendFilter) (delivery : Delivery π)
    (hlength : delivery.remaining.length ≤ c.consumers.length) :
    c.Starts { c with filter, deliveries := c.deliveries ++ [delivery] } := by
  refine ⟨h.moves_append filter delivery, ⟨?_, h.not_mem_sent⟩, fun _ => rfl, rfl, fun cost => ?_⟩
  · rw [List.length_append]
    exact Nat.lt_add_one _
  · have hcounts : openCounts { c with filter, deliveries := c.deliveries ++ [delivery] }
        (sendWork cost) = c.openCounts (sendWork cost) ++ [sendWork cost delivery] := by
      rw [openCounts, List.zipIdx_append, List.map_append, openCounts]
      simp [isSent, h.not_mem_sent]
    have hsendWork : sendWork cost delivery ≤ c.consumers.length * (cost + 2) + 2 :=
      Nat.add_le_add_right (Nat.mul_le_mul_right _ hlength) 2
    rw [channelWork_eq, channelWork_eq, hcounts, List.sum_append,
      List.sum_singleton]
    show (c.consumers.map _).sum + (_ + sendWork cost delivery) ≤ _
    omega

end Append

/-- A send starts under way, with at most all consumers before it. -/
theorem Smooth.send {c : Channel ℓ π} (h : c.Smooth) (m : Message π) :
    c.Starts (c.send m).1 := by
  unfold Channel.send
  rw [if_pos h.running]
  exact h.starting _ _ (h.length_select_le _ _)

/-- The start of a send wakes nobody. -/
theorem woken_send (c : Channel ℓ π) (m : Message π) : (c.send m).1.woken = c.woken := by
  unfold send
  split <;> rfl

/-- A send is numbered after those before it. -/
theorem send_snd (c : Channel ℓ π) (m : Message π) : (c.send m).2 = c.deliveries.length := by
  unfold send
  split <;> rfl

/-- After somebody subscribed there are the old consumers, and the new one. -/
theorem getElem?_subscribe {c : Channel ℓ π} {label : ℓ} {s : Subscription} {i : Nat}
    {k : Consumer ℓ π} (hk : (c.subscribe label s).1.consumers[i]? = some k) :
    c.consumers[i]? = some k ∨
      k = { label, subscription := s, since := c.restarts, canceled := !c.running } := by
  rw [subscribe, List.getElem?_append] at hk
  split at hk
  · exact .inl hk
  · exact .inr (List.mem_singleton.1 (List.mem_of_getElem? hk))

/-- A consumer that subscribes has nothing to do yet. -/
theorem due_of_subscribe {c : Channel ℓ π} {label : ℓ} {s : Subscription} {w : Wake}
    (hw : (c.subscribe label s).1.Due w) : c.Due w := by
  cases w with
  | consumer i =>
    obtain ⟨k, hk, hheld, hqueue⟩ := hw
    rcases getElem?_subscribe hk with hold | rfl
    · exact ⟨k, hold, hheld, hqueue⟩
    · exact absurd rfl hqueue
  | delivery d =>
    refine ⟨hw.1, fun i k hnext hk => hw.2 i k hnext ?_⟩
    show (c.consumers ++ [_])[i]? = some k
    rw [List.getElem?_append_left (List.getElem?_eq_some_iff.1 hk).1]
    exact hk

/-- A new consumer disturbs nobody. -/
theorem Smooth.subscribe {c : Channel ℓ π} (h : c.Smooth) (label : ℓ) (s : Subscription)
    (turn : Wake) : c.Moves (c.subscribe label s).1 turn where
  smooth := by
    refine ⟨h.capacity_pos, h.running, ?_, fun i hi => ?_, h.sent_lt, h.next?_sent,
      fun i k hk => ?_⟩
    · refine List.nodup_append.2 ⟨h.registered_nodup, List.nodup_singleton _, ?_⟩
      rintro i hi j hj rfl
      rw [List.mem_singleton.1 hj] at hi
      exact Nat.lt_irrefl _ (h.registered_lt _ hi)
    · show i < (c.consumers ++ [_]).length
      rw [List.length_append, List.length_singleton]
      rcases List.mem_append.1 hi with hold | hnew
      · have hlt := h.registered_lt i hold
        omega
      · rw [List.mem_singleton.1 hnew]
        omega
    · rcases getElem?_subscribe hk with hold | rfl
      · exact h.fair hold
      · exact ⟨by rw [h.running]; rfl, rfl, List.nodup_nil, by simp, by simp⟩
  length_le := Nat.le_refl _
  underWay _ hd := .inl hd
  left_le _ _ := Nat.le_refl _
  due _ hw := .inl (due_of_subscribe hw)
  woken d hd := .inl ((List.mem_append.1 hd).resolve_right (by simp))

/-- A consumer that subscribes with a label of the kind keeps all labels of that kind. -/
theorem Staffed.subscribe {labels : ℓ → Prop} {c : Channel ℓ π} (h : c.Staffed labels) {label : ℓ}
    (hlabel : labels label) (s : Subscription) : (c.subscribe label s).1.Staffed labels := by
  intro k hk
  rcases List.mem_append.1 hk with hold | hnew
  · exact h k hold
  · rw [List.mem_singleton.1 hnew]
    exact hlabel

/-- A new consumer has nothing in hand. -/
theorem holds_subscribe (c : Channel ℓ π) (label : ℓ) (s : Subscription) (j : Nat) :
    (c.subscribe label s).1.holds j = c.holds j := by
  by_cases hj : j < c.consumers.length
  · show (c.consumers ++ [_])[j]?.any _ = _
    rw [List.getElem?_append_left hj]
    rfl
  · have hnone : c.consumers[j]? = none := List.getElem?_eq_none_iff.2 (Nat.le_of_not_lt hj)
    rw [holds, holds, hnone]
    cases hk : (c.subscribe label s).1.consumers[j]? with
    | none => rfl
    | some k =>
      rcases getElem?_subscribe hk with hold | rfl
      · rw [hnone] at hold
        simp at hold
      · rfl

end Channel

end MarketEngine
