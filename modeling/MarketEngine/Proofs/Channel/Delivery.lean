import MarketEngine.Proofs.Channel.Run
/-!
# Delivery

With every consumer that was not canceled there is, in every state of every run, each message that
went past it: first those that were handled, then the one in hand, then the queue, in the order in
which the sends came by (`ChannelRun.delivers`). A send goes past exactly the consumers that were
selected at its start, past each of them once.

The argument takes a send and a consumer at a time: what a send has gone past and what it has left
make up its selection (`ChannelRun.Tracks`), and a consumer has what went past it
(`ChannelRun.Serves`).
-/

namespace MarketEngine

variable {ℓ π : Type}

/-! ## Selections -/

/-- Whether a subscription asks for messages like this one. -/
def Subscription.covers (s : Subscription) (key : RoutingKey) : Bool :=
  (s.symbol == key.symbol || s.symbol == Symbol.wildcard) && s.acceptsTimeFrame key.timeFrame

namespace Channel

/-- A key is of interest to those who ask for its symbol and to those who ask for all. -/
theorem mem_audiences {key : RoutingKey} {symbol : Symbol} :
    symbol ∈ audiences key ↔ symbol = key.symbol ∨ symbol = Symbol.wildcard := by
  unfold audiences
  split
  · next hwildcard =>
    rw [beq_iff_eq] at hwildcard
    rw [hwildcard, or_self, List.mem_singleton]
  · rw [List.mem_cons, List.mem_singleton]

/-- A registered consumer is selected for what it subscribed to, unless it is rate-limited and its
turn has not come. -/
theorem mem_select {c : Channel ℓ π} {key : RoutingKey} {flagged : Bool} {i : Nat}
    {k : Consumer ℓ π} (hk : c.consumers[i]? = some k) (hregistered : i ∈ c.registered) :
    i ∈ c.select key flagged ↔
      k.subscription.covers key = true ∧ (flagged = true ∨ k.subscription.rateLimited = false) := by
  simp only [select, List.mem_flatMap, List.mem_filter, wants, hk, hregistered,
    Subscription.covers, Bool.and_eq_true, Bool.or_eq_true, Bool.not_eq_true', beq_iff_eq, true_and]
  constructor
  · rintro ⟨audience, haudience, ⟨rfl, hframe⟩, hflagged⟩
    exact ⟨⟨mem_audiences.1 haudience, hframe⟩, hflagged⟩
  · rintro ⟨⟨hsymbol, hframe⟩, hflagged⟩
    exact ⟨_, mem_audiences.2 hsymbol, ⟨rfl, hframe⟩, hflagged⟩

/-- Only registered consumers are selected. -/
theorem mem_of_mem_select {c : Channel ℓ π} {key : RoutingKey} {flagged : Bool} {i : Nat}
    (h : i ∈ c.select key flagged) : i ∈ c.registered := by
  obtain ⟨audience, -, hi⟩ := List.mem_flatMap.1 h
  exact (List.mem_filter.1 hi).1

/-- A consumer is of one audience only. -/
theorem audience_eq {c : Channel ℓ π} {key : RoutingKey} {flagged : Bool} {first second : Symbol}
    {i : Nat} (hfirst : c.wants key flagged first i = true)
    (hsecond : c.wants key flagged second i = true) : first = second := by
  unfold wants at hfirst hsecond
  cases hk : c.consumers[i]? with
  | none => simp [hk] at hfirst
  | some k =>
    simp only [hk, Bool.and_eq_true, beq_iff_eq] at hfirst hsecond
    rw [← hfirst.1.1, hsecond.1.1]

/-- A message reaches no consumer twice. -/
theorem nodup_select {c : Channel ℓ π} (h : c.registered.Nodup) (key : RoutingKey)
    (flagged : Bool) : (c.select key flagged).Nodup := by
  rw [select, List.nodup_flatMap]
  refine ⟨fun audience _ => h.filter _, ?_⟩
  have haudiences : (audiences key).Pairwise (· ≠ ·) := by
    unfold audiences
    split
    · simp
    · next hne => simpa using hne
  refine haudiences.imp fun hne => ?_
  intro i hfirst hsecond
  exact hne (audience_eq (List.mem_filter.1 hfirst).2 (List.mem_filter.1 hsecond).2)

end Channel

/-! ## Sends and consumers in order -/

namespace ChannelRun

/-- What a send has gone past and what it has left make up its selection, and a completed send has
nothing left. -/
structure Tracks (r : ChannelRun ℓ π) (d : Nat) (s : Delivery π) : Prop where
  nodup : s.selected.Nodup
  lt_length : ∀ i ∈ s.selected, i < r.channel.consumers.length
  selected_eq : s.selected = r.passedBy d ++ s.remaining
  remaining_eq : d ∈ r.channel.sent → s.remaining = []

/-- A consumer has what went past it, and its queue has not more than its places. -/
structure Serves (r : ChannelRun ℓ π) (i : Nat) (k : Consumer ℓ π) : Prop where
  contents_eq : k.contents.map some = (r.passedTo i).map r.channel.message?
  taken_le : k.taken ≤ r.channel.capacity

/-- Every send is tracked, and every consumer that is not canceled is served. -/
structure Sound (r : ChannelRun ℓ π) : Prop where
  registered_nodup : r.channel.registered.Nodup
  registered_lt : ∀ i ∈ r.channel.registered, i < r.channel.consumers.length
  passed_nodup : r.passed.Nodup
  passed_lt : ∀ d i, (d, i) ∈ r.passed →
    d < r.channel.deliveries.length ∧ i < r.channel.consumers.length
  sent_lt : ∀ d ∈ r.channel.sent, d < r.channel.deliveries.length
  tracks : ∀ ⦃d : Nat⦄ ⦃s : Delivery π⦄, r.channel.deliveries[d]? = some s → r.Tracks d s
  serves : ∀ ⦃i : Nat⦄ ⦃k : Consumer ℓ π⦄, r.channel.consumers[i]? = some k →
    k.canceled = false → r.Serves i k

/-- At the opening there is nothing to track and nobody to serve. -/
theorem sound_opening (queueSize filterSize : Nat) :
    (opening queueSize filterSize : ChannelRun ℓ π).Sound where
  registered_nodup := List.nodup_nil
  registered_lt i hi := by simp [opening, Channel.empty] at hi
  passed_nodup := List.nodup_nil
  passed_lt d i h := by simp [opening] at h
  sent_lt d hd := by simp [opening, Channel.empty] at hd
  tracks d s hs := by simp [opening, Channel.empty] at hs
  serves i k hk := by simp [opening, Channel.empty] at hk

namespace Sound

variable {r : ChannelRun ℓ π}

/-- A step that keeps sends and consumers keeps everybody tracked and served. -/
theorem of_kept (h : r.Sound) {c : Channel ℓ π} (hkept : r.channel.Kept c) :
    ({ r with channel := c } : ChannelRun ℓ π).Sound where
  registered_nodup := h.registered_nodup.sublist hkept.registered_sublist
  registered_lt i hi := by
    rw [hkept.length_eq]
    exact h.registered_lt i (hkept.registered_sublist.subset hi)
  passed_nodup := h.passed_nodup
  passed_lt := by
    rw [hkept.deliveries_eq, hkept.length_eq]
    exact h.passed_lt
  sent_lt := by
    rw [hkept.sent_eq, hkept.deliveries_eq]
    exact h.sent_lt
  tracks d s hs := by
    rw [hkept.deliveries_eq] at hs
    have htracks := h.tracks hs
    exact ⟨htracks.nodup, hkept.length_eq ▸ htracks.lt_length, htracks.selected_eq,
      hkept.sent_eq ▸ htracks.remaining_eq⟩
  serves i k' hk' hcanceled := by
    obtain ⟨k, hk, hcanceled, hcontents, htaken⟩ := hkept.consumer hk' hcanceled
    have hserves := h.serves hk hcanceled
    refine ⟨?_, ?_⟩
    · have hmessage : c.message? = r.channel.message? := by
        funext d
        rw [Channel.message?, hkept.deliveries_eq, Channel.message?]
      rw [hcontents, hmessage]
      exact hserves.contents_eq
    · rw [hkept.capacity_eq]
      exact Nat.le_trans htaken hserves.taken_le

/-- Nothing went past a consumer before it subscribed. -/
theorem passedTo_length (h : r.Sound) : r.passedTo r.channel.consumers.length = [] := by
  refine List.eq_nil_iff_forall_not_mem.2 fun d hd => ?_
  have hlt := (h.passed_lt d _ (mem_passedTo.1 hd)).2
  omega

/-- A send went past nobody before it started. -/
theorem passedBy_length (h : r.Sound) : r.passedBy r.channel.deliveries.length = [] := by
  refine List.eq_nil_iff_forall_not_mem.2 fun i hi => ?_
  have hlt := (h.passed_lt _ i (mem_passedBy.1 hi)).1
  omega

/-- A new consumer has got nothing, and no send went past it. -/
theorem subscribe (h : r.Sound) (label : ℓ) (subscription : Subscription) :
    ({ r with channel := (r.channel.subscribe label subscription).1 } : ChannelRun ℓ π).Sound where
  registered_nodup := by
    refine List.nodup_append.2 ⟨h.registered_nodup, List.nodup_singleton _, ?_⟩
    intro i hi j hj
    have hlt := h.registered_lt i hi
    simp only [List.mem_singleton] at hj
    omega
  registered_lt i hi := by
    simp only [Channel.subscribe, List.length_append, List.length_singleton]
    rcases List.mem_append.1 hi with hold | hnew
    · have hlt := h.registered_lt i hold
      omega
    · have hi := List.mem_singleton.1 hnew
      omega
  passed_nodup := h.passed_nodup
  passed_lt d i hdi := by
    have hlt := h.passed_lt d i hdi
    simp only [Channel.subscribe, List.length_append, List.length_singleton]
    omega
  sent_lt := h.sent_lt
  -- the sends under way selected their consumers before
  tracks d s hs := by
    have htracks := h.tracks hs
    refine ⟨htracks.nodup, fun i hi => ?_, htracks.selected_eq, htracks.remaining_eq⟩
    have hlt := htracks.lt_length i hi
    simp only [Channel.subscribe, List.length_append, List.length_singleton]
    omega
  serves i k hk hcanceled := by
    simp only [Channel.subscribe, List.getElem?_append] at hk
    split at hk
    · have hserves := h.serves hk hcanceled
      exact ⟨hserves.contents_eq, hserves.taken_le⟩
    · -- the new consumer has nothing yet
      next hge =>
      rw [List.getElem?_singleton] at hk
      split at hk
      · next hi =>
        obtain rfl : i = r.channel.consumers.length := by omega
        rw [Option.some.injEq] at hk
        subst hk
        have hnone := h.passedTo_length
        exact ⟨by simpa [Consumer.contents, passedTo] using hnone, by simp [Consumer.taken]⟩
      · simp at hk

section Starting

variable {m : Message π} {selected : List Nat} {c : Channel ℓ π}

/-- A send has its whole selection before it when it starts. -/
theorem tracks_start (h : r.Sound) (hsend : r.channel.Send m selected c) :
    ({ r with channel := c } : ChannelRun ℓ π).Tracks r.channel.deliveries.length
      { message := m, selected, remaining := selected } := by
  have hselected : selected.Nodup ∧ ∀ i ∈ selected, i ∈ r.channel.registered := by
    rcases hsend.selected_cases with rfl | ⟨flagged, rfl⟩
    · simp
    · exact ⟨Channel.nodup_select h.registered_nodup _ _, fun i => Channel.mem_of_mem_select⟩
  refine ⟨hselected.1, fun i hi => ?_, ?_, fun hd => ?_⟩
  · rw [hsend.consumers_eq]
    exact h.registered_lt i (hselected.2 i hi)
  · have hnone := h.passedBy_length
    simpa [passedBy] using hnone
  · rcases hsend.mem_sent hd with hold | ⟨-, hnone⟩
    · have hlt := h.sent_lt _ hold
      omega
    · exact hnone

/-- The start of a send leaves those before it tracked, and is tracked itself: it went past nobody
yet. -/
theorem tracks_send (h : r.Sound) (hsend : r.channel.Send m selected c) {d : Nat}
    {s : Delivery π} (hs : r.channel.deliveries[d]? = some s) :
    ({ r with channel := c } : ChannelRun ℓ π).Tracks d s := by
  have htracks := h.tracks hs
  have hlt := (List.getElem?_eq_some_iff.1 hs).1
  refine ⟨htracks.nodup, hsend.consumers_eq ▸ htracks.lt_length, htracks.selected_eq,
    fun hd => ?_⟩
  rcases hsend.mem_sent hd with hold | ⟨hnew, -⟩
  · exact htracks.remaining_eq hold
  · omega

end Starting

/-- The start of a send delivers nothing. -/
theorem send (h : r.Sound) (m : Message π) :
    ({ r with channel := (r.channel.send m).1 } : ChannelRun ℓ π).Sound := by
  obtain ⟨selected, hsend⟩ := r.channel.send_spec m
  have hlength : (r.channel.send m).1.deliveries.length = r.channel.deliveries.length + 1 := by
    simp [hsend.deliveries_eq]
  refine ⟨hsend.registered_eq ▸ h.registered_nodup, ?_, h.passed_nodup, ?_, ?_, ?_, ?_⟩
  · rw [hsend.registered_eq, hsend.consumers_eq]
    exact h.registered_lt
  · intro d i hdi
    have hlt := h.passed_lt d i hdi
    rw [hlength, hsend.consumers_eq]
    omega
  · intro d hd
    rw [hlength]
    rcases hsend.mem_sent hd with hold | ⟨hnew, -⟩
    · have hlt := h.sent_lt d hold
      omega
    · omega
  · intro d s hs
    rw [hsend.deliveries_eq, List.getElem?_append] at hs
    split at hs
    · exact h.tracks_send hsend hs
    · next hge =>
      rw [List.getElem?_singleton] at hs
      split at hs
      · next hd =>
        obtain rfl : d = r.channel.deliveries.length := by omega
        rw [Option.some.injEq] at hs
        subst hs
        exact h.tracks_start hsend
      · simp at hs
  · intro i k hk hcanceled
    rw [hsend.consumers_eq] at hk
    have hserves := h.serves hk hcanceled
    refine ⟨hserves.contents_eq.trans (List.map_congr_left fun d hd => ?_), ?_⟩
    · -- the sends that went past somebody are not the one that starts
      have hlt := (h.passed_lt d i (mem_passedTo.1 hd)).1
      rw [Channel.message?, Channel.message?, hsend.deliveries_eq, List.getElem?_append_left hlt]
    · rw [hsend.capacity_eq]
      exact hserves.taken_le

end Sound

section Passing

variable {r : ChannelRun ℓ π} {d i : Nat} {s : Delivery π} {c : Channel ℓ π}

/-- A send that goes past a consumer changes no message. -/
theorem message?_of_passing (hpassing : r.channel.Passing d i s c) :
    c.message? = r.channel.message? := by
  funext e
  rw [Channel.message?, hpassing.deliveries_eq, List.getElem?_modify, Channel.message?]
  cases r.channel.deliveries[e]? with
  | none => rfl
  | some t =>
    simp only [Option.map_eq_map, Option.map_some]
    split <;> rfl

/-- A send goes past the first consumer that it has left. -/
theorem Tracks.passing (h : r.Tracks d s) (hpassing : r.channel.Passing d i s c) :
    ({ channel := c, passed := r.passed ++ [(d, i)] } : ChannelRun ℓ π).Tracks d
      { s with remaining := s.remaining.tail } where
  nodup := h.nodup
  lt_length := by
    rw [hpassing.length_eq]
    exact h.lt_length
  selected_eq := by
    have hselected := h.selected_eq
    rw [hpassing.head_eq] at hselected
    simpa [passedBy] using hselected
  remaining_eq hsent := by
    rw [hpassing.sent_eq] at hsent
    simp [h.remaining_eq hsent]

/-- The other sends went past whom they went past before. -/
theorem Tracks.passing_other {e : Nat} {t : Delivery π} (h : r.Tracks e t)
    (hpassing : r.channel.Passing d i s c) (hne : d ≠ e) :
    ({ channel := c, passed := r.passed ++ [(d, i)] } : ChannelRun ℓ π).Tracks e t where
  nodup := h.nodup
  lt_length := by
    rw [hpassing.length_eq]
    exact h.lt_length
  selected_eq := by
    rw [h.selected_eq]
    simp [passedBy, hne]
  remaining_eq hsent := by
    rw [hpassing.sent_eq] at hsent
    exact h.remaining_eq hsent

/-- The consumer that a send goes past has its message behind those it had. -/
theorem Serves.passing {k old : Consumer ℓ π} (h : r.Serves i old)
    (hpassing : r.channel.Passing d i s c) (hcontents : k.contents = old.contents ++ [s.message])
    (htaken : old.taken ≤ r.channel.capacity → k.taken ≤ r.channel.capacity) :
    ({ channel := c, passed := r.passed ++ [(d, i)] } : ChannelRun ℓ π).Serves i k where
  contents_eq := by
    have hmessage : r.channel.message? d = some s.message := by
      rw [Channel.message?, hpassing.getElem?, Option.map_some]
    rw [hcontents, List.map_append, h.contents_eq, message?_of_passing hpassing]
    simp [passedTo, hmessage]
  taken_le := by
    rw [hpassing.capacity_eq]
    exact htaken h.taken_le

/-- The other consumers have what they had. -/
theorem Serves.passing_other {j : Nat} {k : Consumer ℓ π} (h : r.Serves j k)
    (hpassing : r.channel.Passing d i s c) (hne : j ≠ i) :
    ({ channel := c, passed := r.passed ++ [(d, i)] } : ChannelRun ℓ π).Serves j k where
  contents_eq := by
    rw [h.contents_eq, message?_of_passing hpassing]
    simp [passedTo, hne.symm]
  taken_le := by
    rw [hpassing.capacity_eq]
    exact h.taken_le

end Passing

namespace Sound

variable {r : ChannelRun ℓ π}

/-- A send goes past its next consumer, which it has not gone past yet. -/
theorem passing (h : r.Sound) {d i : Nat} {s : Delivery π} {c : Channel ℓ π}
    (hpassing : r.channel.Passing d i s c) :
    ({ channel := c, passed := r.passed ++ [(d, i)] } : ChannelRun ℓ π).Sound := by
  have htracks := h.tracks hpassing.getElem?
  have hselected : s.selected = r.passedBy d ++ i :: s.remaining.tail := by
    rw [htracks.selected_eq, ← hpassing.head_eq]
  have hdeliveries : c.deliveries.length = r.channel.deliveries.length := by
    rw [hpassing.deliveries_eq, List.length_modify]
  refine ⟨?_, ?_, ?_, ?_, ?_, ?_, ?_⟩
  · rw [hpassing.registered_eq]
    exact h.registered_nodup
  · rw [hpassing.registered_eq, hpassing.length_eq]
    exact h.registered_lt
  · -- the selection has nobody twice, so the send did not go past this one before
    refine List.nodup_append.2 ⟨h.passed_nodup, List.nodup_singleton _, ?_⟩
    rintro p hp q hq rfl
    rw [List.mem_singleton.1 hq] at hp
    have hnodup := htracks.nodup
    rw [hselected] at hnodup
    exact List.disjoint_of_nodup_append hnodup (mem_passedBy.2 hp) List.mem_cons_self
  · intro e j hej
    rw [hdeliveries, hpassing.length_eq]
    rcases List.mem_append.1 hej with hold | hnew
    · exact h.passed_lt e j hold
    · simp only [List.mem_singleton, Prod.mk.injEq] at hnew
      rw [hnew.1, hnew.2]
      exact ⟨(List.getElem?_eq_some_iff.1 hpassing.getElem?).1,
        htracks.lt_length i (by simp [hselected])⟩
  · rw [hpassing.sent_eq, hdeliveries]
    exact h.sent_lt
  -- this send tracks one more consumer, the others what they tracked
  · intro e t ht
    rw [hpassing.deliveries_eq, List.getElem?_modify] at ht
    obtain ⟨old, hold, rfl⟩ := Option.map_eq_some_iff.1 ht
    by_cases hde : d = e
    · subst hde
      rw [hpassing.getElem?, Option.some.injEq] at hold
      subst hold
      simpa using htracks.passing hpassing
    · simpa [hde] using (h.tracks hold).passing_other hpassing hde
  · intro j k hk hcanceled
    by_cases hj : j = i
    · subst hj
      obtain ⟨old, hold, hcanceled, hcontents, htaken⟩ := hpassing.next hk hcanceled
      exact (h.serves hold hcanceled).passing hpassing hcontents htaken
    · exact (h.serves (hpassing.others hj hk) hcanceled).passing_other hpassing hj

/-- A send that has nothing left is completed. -/
theorem completed (h : r.Sound) {d : Nat} {s : Delivery π}
    (hs : r.channel.deliveries[d]? = some s) (hremaining : s.remaining = []) :
    ({ r with
      channel :=
        { r.channel with
          filter := r.channel.filter.hasSend
          sent := r.channel.sent ++ [d] } } : ChannelRun ℓ π).Sound where
  registered_nodup := h.registered_nodup
  registered_lt := h.registered_lt
  passed_nodup := h.passed_nodup
  passed_lt := h.passed_lt
  sent_lt e he := by
    rcases List.mem_append.1 he with hold | hnew
    · exact h.sent_lt e hold
    · rw [List.mem_singleton.1 hnew]
      exact (List.getElem?_eq_some_iff.1 hs).1
  tracks e t ht := by
    have htracks := h.tracks ht
    refine ⟨htracks.nodup, htracks.lt_length, htracks.selected_eq, fun he => ?_⟩
    rcases List.mem_append.1 he with hold | hnew
    · exact htracks.remaining_eq hold
    · rw [List.mem_singleton.1 hnew] at ht
      obtain rfl := Option.some.inj (hs.symm.trans ht)
      exact hremaining
  serves i k hk hcanceled := ⟨(h.serves hk hcanceled).contents_eq, (h.serves hk hcanceled).taken_le⟩

/-- A send that goes on keeps everybody tracked and served, as it goes past one consumer at most. -/
theorem advance (h : r.Sound) (d : Nat) : (r.step (.advance d)).Sound := by
  have hadvance := r.channel.advance_spec d
  simp only [step, Channel.step, Channel.passes]
  generalize r.channel.advance d = result at hadvance ⊢
  cases hadvance with
  | ended => simpa using h
  | completed hs hremaining => simpa using h.completed hs hremaining
  | @moved s i c hpassing =>
    have hnext : r.channel.next? d = some i := by
      rw [Channel.next?, hpassing.getElem?, Option.bind_some, hpassing.head_eq, List.head?_cons]
    simpa [hnext] using h.passing hpassing
  | blocked hkept => simpa using h.of_kept hkept

/-- Every step keeps the messages in order. -/
theorem step (h : r.Sound) (e : ChannelEvent ℓ π) : (r.step e).Sound := by
  have hquiet : ∀ e : ChannelEvent ℓ π, r.channel.passes e = [] →
      r.step e = { r with channel := r.channel.step e } := fun e hnone => by
    rw [ChannelRun.step, hnone, List.append_nil]
  cases e with
  | subscribe label subscription =>
    rw [hquiet _ rfl]
    exact h.subscribe label subscription
  | send m =>
    rw [hquiet _ rfl]
    exact h.send m
  | advance d => exact h.advance d
  | _ =>
    rw [hquiet _ rfl]
    exact h.of_kept (Channel.kept_step _ (by simp) (by simp) (by simp))

/-- In every state of every run each send is tracked and each consumer served. -/
theorem run (h : r.Sound) (events : List (ChannelEvent ℓ π)) : (r.run events).Sound := by
  induction events generalizing r with
  | nil => exact h
  | cons e rest ih => exact ih (h.step e)

end Sound

/-! ## No message is lost, doubled or overtaken -/

/-- While no send is under way, every send has gone past its whole selection. -/
theorem remaining_eq_nil {r : ChannelRun ℓ π} (h : r.Sound) (hnone : r.channel.underWay = [])
    {d : Nat} {s : Delivery π} (hs : r.channel.deliveries[d]? = some s) : s.remaining = [] :=
  (h.tracks hs).remaining_eq (Channel.mem_sent hnone hs)

namespace Sound

variable {r : ChannelRun ℓ π}

/-- No send goes past a consumer twice. -/
theorem nodup_passedTo (h : r.Sound) (i : Nat) : (r.passedTo i).Nodup := by
  refine List.Nodup.map_on ?_ (h.passed_nodup.filter _)
  intro p hp q hq hpq
  have hp' := (List.mem_filter.1 hp).2
  have hq' := (List.mem_filter.1 hq).2
  simp only [beq_iff_eq] at hp' hq'
  exact Prod.ext hpq (hp'.trans hq'.symm)

/-- A selection is what was gone past and what is left, and these have nobody in common. -/
theorem mem_passedTo_iff (h : r.Sound) {d i : Nat} : d ∈ r.passedTo i ↔
    ∃ s, r.channel.deliveries[d]? = some s ∧ i ∈ s.selected ∧ i ∉ s.remaining := by
  rw [mem_passedTo, ← mem_passedBy]
  constructor
  · intro hd
    have hlt := (h.passed_lt d i (mem_passedBy.1 hd)).1
    have htracks := h.tracks (List.getElem?_eq_getElem hlt)
    have hnodup := htracks.nodup
    refine ⟨_, List.getElem?_eq_getElem hlt, ?_, ?_⟩
    · rw [htracks.selected_eq]
      exact List.mem_append_left _ hd
    · rw [htracks.selected_eq] at hnodup
      exact List.disjoint_of_nodup_append hnodup hd
  · rintro ⟨s, hs, hselected, hremaining⟩
    rw [(h.tracks hs).selected_eq] at hselected
    exact (List.mem_append.1 hselected).resolve_right hremaining

/-- While no send is under way, every send that selected a consumer has gone past it. -/
theorem mem_passedTo_of_rest (h : r.Sound) (hnone : r.channel.underWay = []) {d i : Nat} :
    d ∈ r.passedTo i ↔ ∃ s, r.channel.deliveries[d]? = some s ∧ i ∈ s.selected := by
  rw [h.mem_passedTo_iff]
  refine ⟨fun ⟨s, hs, hselected, _⟩ => ⟨s, hs, hselected⟩, fun ⟨s, hs, hselected⟩ => ?_⟩
  refine ⟨s, hs, hselected, ?_⟩
  rw [remaining_eq_nil h hnone hs]
  exact List.not_mem_nil

end Sound

/-- In every state of every run, a consumer that was not canceled has handled, holds in hand and has
queued, in this order, the messages of the sends that selected it and have gone past it, each once
and in the order in which they came by, and its queue has at most its length. While no send is under
way, these are all the sends that selected it. -/
theorem delivers (queueSize filterSize : Nat) (events : List (ChannelEvent ℓ π)) {i : Nat}
    {k : Consumer ℓ π}
    (hk : ((opening queueSize filterSize).run events).channel.consumers[i]? = some k)
    (hcanceled : k.canceled = false) :
    let r := (opening queueSize filterSize).run events
    (k.handled ++ k.held.toList ++ k.queue).map some = (r.passedTo i).map r.channel.message? ∧
    (r.passedTo i).Nodup ∧
    (∀ d, d ∈ r.passedTo i ↔ ∃ s, r.channel.deliveries[d]? = some s ∧ i ∈ s.selected ∧
      i ∉ s.remaining) ∧
    k.queue.length ≤ max queueSize 1 ∧
    (r.channel.underWay = [] → ∀ d, d ∈ r.passedTo i ↔
      ∃ s, r.channel.deliveries[d]? = some s ∧ i ∈ s.selected) := by
  intro r
  have hsound : r.Sound := (sound_opening queueSize filterSize).run events
  have hserves := hsound.serves hk hcanceled
  refine ⟨hserves.contents_eq, hsound.nodup_passedTo i, fun d => hsound.mem_passedTo_iff, ?_,
    fun hnone d => hsound.mem_passedTo_of_rest hnone⟩
  have hcapacity : r.channel.capacity = max queueSize 1 := by
    rw [channel_run, (Channel.started_run _ events).2]
    rfl
  have htaken := hserves.taken_le
  rw [hcapacity] at htaken
  exact Nat.le_trans (Nat.le_add_right _ _) htaken

/-- Three sends to a slow consumer with one place in its queue and to another that is stopped. -/
def crowdedEvents : List (ChannelEvent String Nat) :=
  let send (n : Nat) : ChannelEvent String Nat := .send ⟨⟨"BTC/USDT", none⟩, n⟩
  [.issueProducer, .subscribe "slow" {}, .subscribe "stopped" {}, send 1, .advance 0, .advance 0,
    .take 0, send 2, .advance 1, send 3,
    -- the queue is full
    .advance 2, .stopConsumer 1, .advance 1, .finish 0, .take 0, .advance 2]

/-- The slow consumer has every message, though the third send had to wait for it. -/
theorem delivers_crowded :
    let r := (opening 0 1).run crowdedEvents
    ∃ k, r.channel.consumers[0]? = some k ∧ k.canceled = false ∧ r.passedTo 0 = [0, 1, 2] ∧
      (k.handled ++ k.held.toList ++ k.queue).map some
        = (r.passedTo 0).map r.channel.message? := by
  intro r
  have huncanceled : (r.channel.consumers[0]?).any (!·.canceled) = true := by decide +kernel
  obtain ⟨k, hk, hcanceled⟩ := (Option.any_eq_true _ _).1 huncanceled
  rw [Bool.not_eq_true'] at hcanceled
  obtain ⟨hcontents, -⟩ := delivers 0 1 crowdedEvents hk hcanceled
  exact ⟨k, hk, hcanceled, by decide +kernel, hcontents⟩

end ChannelRun

end MarketEngine
