import MarketEngine.Proofs.Channel.Live
import MarketEngine.Proofs.Lists
/-!
# The work that is left

How the bound on the steps until nobody can go on depends on the channels, on what is left of
messages and on who stands in line, and what a change of each does to it. The start of a send adds
its way past all consumers of its topic (`Network.Live.send`).
-/

namespace MarketEngine

variable {ℓ π σ κ : Type}

namespace Network

variable {γ : Cascade ℓ σ κ} {h : Handlers ℓ π σ κ} {A : List Ticket} {n n' : Network ℓ π σ κ}

/-! ## Sends only go on -/

/-- Every send is still there, with at most as many consumers before it. -/
def Sinks (n n' : Network ℓ π σ κ) : Prop :=
  ∀ topic, (n.channelAt topic).deliveries.length ≤ (n'.channelAt topic).deliveries.length ∧
    ∀ d < (n.channelAt topic).deliveries.length,
      (n'.channelAt topic).left d ≤ (n.channelAt topic).left d

/-- Where the channels are the same every send has what it had before it. -/
theorem Sinks.of_eq (hchannels : n'.channels = n.channels) : n.Sinks n' := by
  intro topic
  have hsame : n'.channelAt topic = n.channelAt topic := by
    rw [channelAt, channel?, hchannels]
    rfl
  rw [hsame]
  exact ⟨Nat.le_refl _, fun _ _ => Nat.le_refl _⟩

/-- What sinks and sinks again has sunk. -/
theorem Sinks.trans {n'' : Network ℓ π σ κ} (hn : n.Sinks n') (hn' : n'.Sinks n'') :
    n.Sinks n'' := by
  intro topic
  obtain ⟨hlength, hleft⟩ := hn topic
  obtain ⟨hlength', hleft'⟩ := hn' topic
  refine ⟨Nat.le_trans hlength hlength', fun d hd => ?_⟩
  exact Nat.le_trans (hleft' d (Nat.lt_of_lt_of_le hd hlength)) (hleft d hd)

/-- A step on one channel lets the network sink. -/
theorem sinks_put {topic : Topic} {c : Channel ℓ π} {turn : Wake}
    (hmoves : (n.channelAt topic).Moves c turn) : n.Sinks (n.put topic c) := by
  intro topic'
  rw [channelAt_put]
  split
  · next htopic =>
    rw [htopic]
    exact ⟨hmoves.length_le, fun d hd => hmoves.left_le hd⟩
  · exact ⟨Nat.le_refl _, fun _ _ => Nat.le_refl _⟩

/-! ## The work that is left -/

/-- The steps that the queues and sends of all channels may lead to. -/
def load (h : Handlers ℓ π σ κ) (n : Network ℓ π σ κ) : Nat :=
  (n.channels.map fun (topic, c) => channelWork (h.cost n.population topic) c).sum

/-- The steps that what is left of messages may lead to. -/
def debt (h : Handlers ℓ π σ κ) (population : Topic → Nat) (rests : List κ) : Nat :=
  (rests.map (h.restCost population)).sum

/-- The work that is left: a step for everybody in line, and what the channels and the messages
under way may lead to. -/
theorem work_eq (h : Handlers ℓ π σ κ) (n : Network ℓ π σ κ) :
    n.work h = n.ready.length + n.load h + debt h n.population n.rests := by
  have hrests : n.rests.map (h.restCost n.population)
      = n.pending.map fun e => h.restCost n.population e.2.rest := by
    rw [rests, List.map_map]
    rfl
  rw [work, ← List.sum_eq_foldr, ← List.sum_eq_foldr, debt, hrests]
  show _ + _ + List.sum _ = _ + _ + List.sum _
  congr 3
  funext entry
  obtain ⟨a, p⟩ := entry
  cases p <;> rfl

/-- The order of the messages under way does not count. -/
theorem debt_perm (population : Topic → Nat) {rests rests' : List κ} (hperm : rests.Perm rests') :
    debt h population rests = debt h population rests' :=
  (hperm.map _).sum_eq

/-- A channel that is put back with as many consumers leaves the population. -/
theorem population_put {topic : Topic} {c : Channel ℓ π}
    (hc : n.channel? topic = some (n.channelAt topic))
    (hlength : c.consumers.length = (n.channelAt topic).consumers.length) :
    (n.put topic c).population = n.population := by
  funext topic'
  rw [population, channel?_put, population]
  by_cases htopic : topic' = topic
  · subst htopic
    simp [hc, hlength]
  · simp [htopic]

/-- A channel that is put back changes the load by what its own work changes. -/
theorem load_put {topic : Topic} {c : Channel ℓ π}
    (hc : n.channel? topic = some (n.channelAt topic))
    (hlength : c.consumers.length = (n.channelAt topic).consumers.length) :
    (n.put topic c).load h + channelWork (h.cost n.population topic) (n.channelAt topic)
      = n.load h + channelWork (h.cost n.population topic) c := by
  have hchannels : (n.put topic c).channels = n.channels.put topic { c with woken := [] } := by
    rw [put, channels_foldl_enqueue]
  have hsum := sum_map_put (f := fun topic => channelWork (h.cost n.population topic)) hc
    { c with woken := [] }
  rw [load, population_put hc hlength, hchannels]
  exact hsum

/-- With a channel that is put back the work changes by that of the channel, and by those whom it
has woken. -/
theorem work_put {topic : Topic} {c : Channel ℓ π}
    (hc : n.channel? topic = some (n.channelAt topic))
    (hlength : c.consumers.length = (n.channelAt topic).consumers.length) :
    (n.put topic c).work h + channelWork (h.cost n.population topic) (n.channelAt topic)
      ≤ n.work h + channelWork (h.cost n.population topic) c + c.woken.length := by
  have hload := load_put (h := h) hc hlength
  have hready := length_ready_put n topic c
  have hrests := (calm_put n topic c).rests_eq
  rw [work_eq, work_eq, population_put hc hlength, hrests]
  omega

/-- Who leaves the line takes one step off the work. -/
theorem work_rest {head : Actor} {tail : List Actor} (hready : n.ready = head :: tail) :
    n.rest.work h + 1 = n.work h := by
  have hlength : n.rest.ready.length + 1 = n.ready.length := by
    rw [rest, hready]
    rfl
  rw [work_eq, work_eq, ← hlength]
  show _ + n.load h + debt h n.population n.rests + 1 = _
  omega

/-- Who is in the midst of nothing cannot be done with it. -/
theorem setPending_none_eq {a : Address} (hnone : ∀ p, (a, p) ∉ n.pending) :
    n.setPending a none = n := by
  have hothers : n.pending.filter (·.1 ≠ a) = n.pending := by
    refine List.filter_eq_self.2 fun e he => ?_
    obtain ⟨b, p⟩ := e
    have hne : b ≠ a := by
      rintro rfl
      exact hnone p he
    exact decide_eq_true hne
  rw [setPending, hothers]

/-- What a lookup finds somebody in the midst of is on the list. -/
theorem mem_of_lookup {a : Address} {p : Pending κ} (h : n.pending.lookup a = some p) :
    (a, p) ∈ n.pending := by
  obtain ⟨before, after, hsplit, -⟩ := List.lookup_eq_some_iff.1 h
  rw [hsplit]
  exact List.mem_append_right _ List.mem_cons_self

/-- Whom a lookup finds in the midst of nothing is not on the list. -/
theorem not_mem_of_lookup {a : Address} (h : n.pending.lookup a = none) (p : Pending κ) :
    (a, p) ∉ n.pending := by
  intro hmem
  have hne := List.lookup_eq_none_iff.1 h _ hmem
  simp at hne

/-- Who is done with a message takes what was left of it off the work. -/
theorem work_setPending_none (hn : n.Orderly) {a : Address} {p : Pending κ}
    (hp : n.pending.lookup a = some p) :
    (n.setPending a none).work h + h.restCost n.population p.rest = n.work h := by
  have hdebt := debt_perm (h := h) n.population (rests_perm_others hn hp)
  rw [work_eq, work_eq, hdebt]
  show n.ready.length + n.load h + debt h n.population (n.others a) + _
    = _ + _ + (h.restCost n.population p.rest + debt h n.population (n.others a))
  omega

/-- Who goes on with a message adds what is left of it to the work. -/
theorem work_setPending_some {a : Address} (hnone : ∀ p, (a, p) ∉ n.pending) (p : Pending κ) :
    (n.setPending a (some p)).work h = n.work h + h.restCost n.population p.rest := by
  have hrests : (n.setPending a (some p)).rests = p.rest :: n.rests := by
    have hothers := congrArg rests (setPending_none_eq hnone)
    show p.rest :: (n.setPending a none).rests = _
    rw [hothers]
  rw [work_eq, work_eq, hrests]
  show n.ready.length + n.load h + (h.restCost n.population p.rest + debt h n.population n.rests)
    = _
  omega

/-! ## Sends that start -/

/-- What the start of a send changes. -/
structure Sent (γ : Cascade ℓ σ κ) (h : Handlers ℓ π σ κ) (A : List Ticket) (n : Network ℓ π σ κ)
    (topic : Topic) (n' : Network ℓ π σ κ) (t : Ticket) : Prop where
  live : n'.Live γ (t :: A)
  topic_eq : t.topic = topic
  underWay : (n'.channelAt t.topic).IsUnderWay t.delivery
  fresh : ¬n.Loose t
  same : n' = { n with channels := n'.channels }
  engaged : ∀ ⦃busy : Option Address⦄, n.Engaged busy → n'.Engaged busy
  sinks : n.Sinks n'
  population_eq : n'.population = n.population
  work_le : n'.work h
    ≤ n.work h + n.population topic * (h.cost n.population topic + 2) + 2

/-- A send that starts adds its way past all consumers of its topic to the work, and forgets nobody.
-/
theorem Live.send (hn : n.Live γ A) (topic : Topic) (m : Message π) :
    Sent γ h A n topic (n.send topic m).1 (n.send topic m).2 := by
  have hc := hn.channel?_eq topic
  have hstarts := (hn.smooth topic).send m
  have hwoken : ((n.channelAt topic).send m).1.woken = [] := hstarts.woken_eq.trans (hn.woken topic)
  obtain ⟨_, hspec⟩ := (n.channelAt topic).send_spec m
  have hlength := congrArg List.length hspec.consumers_eq
  have hstaffed := fun h : (n.channelAt topic).Staffed (γ.placed topic) => h.send m
  have hsend : n.send topic m = (n.put topic ((n.channelAt topic).send m).1,
      ⟨topic, (n.channelAt topic).deliveries.length⟩) := by
    rw [Network.send, hc]
    simp only [Channel.send_snd]
  rw [hsend]
  generalize ((n.channelAt topic).send m).1 = c at *
  -- the number of the send is new, so nobody waits for it or has it in hand
  have hfresh : ¬n.Loose ⟨topic, (n.channelAt topic).deliveries.length⟩ :=
    fun hloose => Nat.lt_irrefl _ hloose.1
  have hfree : ∀ a rest,
      (a, .sending ⟨topic, (n.channelAt topic).deliveries.length⟩ rest) ∉ n.pending := by
    intro a rest hmem
    obtain ⟨_, _, hp, -, -, hunderWay⟩ := hn.pending hmem
    cases hp
    exact Nat.lt_irrefl _ hunderWay.1
  refine ⟨hn.putting (List.subset_cons_self _ _) (fun t ht => ?_) hstarts.moves
    hstaffed (fun _ => .inl List.mem_cons_self) (fun d a rest hd hmem => ?_), rfl, ?_, hfresh,
    ?_, fun busy hbusy => hbusy.put hstarts.holds_eq, sinks_put hstarts.moves,
    population_put hc hlength, ?_⟩
  · refine (List.mem_cons.1 ht).elim (fun hnew => .inr ?_) .inl
    subst hnew
    refine ⟨?_, by rw [pending_put]; exact hfree⟩
    rw [channelAt_put, if_pos rfl]
    exact hstarts.isUnderWay.1
  · cases hd
    exact absurd hmem (hfree a rest)
  · rw [channelAt_put, if_pos rfl]
    exact hstarts.isUnderWay
  · rw [put_eq n topic hwoken]
  · have hwork := work_put (h := h) hc hlength
    have hcost := hstarts.work_le (h.cost n.population topic)
    have hpopulation : n.population topic = (n.channelAt topic).consumers.length := by
      rw [population, hc]
      rfl
    rw [hwoken, List.length_nil] at hwork
    rw [hpopulation]
    show (n.put topic c).work h ≤ _
    omega

end Network

end MarketEngine
