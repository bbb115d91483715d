import MarketEngine.Proofs.Channel.Workload
/-!
# Every step leads closer to rest

In a network whose consumers send down a cascade, each step keeps that nobody who can go on is
forgotten (`Network.Flows`), takes something off the work that is left, and takes no send back to a
consumer (`Network.Flows.step`). So the network comes to rest, whoever goes first
(`Network.Flows.settle`).
-/

namespace MarketEngine

variable {ℓ π σ κ : Type}

namespace Network

variable {γ : Cascade ℓ σ κ} {h : Handlers ℓ π σ κ} {A : List Ticket} {n n' : Network ℓ π σ κ}

/-! ## Steps -/

/-- A step that leads closer to rest. -/
structure Nearer (γ : Cascade ℓ σ κ) (h : Handlers ℓ π σ κ) (A : List Ticket)
    (n n' : Network ℓ π σ κ) : Prop where
  flows : n'.Flows γ A
  sinks : n.Sinks n'
  work_lt : n'.work h < n.work h

/-- The state that the consumers share may be another one that fits. -/
theorem Live.with_shared (hn : n.Live γ A) {shared : σ} (hs : γ.fits shared) :
    Live γ A { n with shared } :=
  { hn with fits := hs }

/-- A consumer that sends next waits for that send. -/
theorem proceed_send_eq (n : Network ℓ π σ κ) (a : Address) (topic : Topic) (m : Message π)
    (rest : κ) (shared : σ) :
    n.proceed a (.send topic m rest, shared)
      = (Network.send { n with shared } topic m).1.setPending a
        (some (.sending (Network.send { n with shared } topic m).2 rest)) :=
  rfl

section Proceed

variable {a : Address} {s : σ}

/-- A consumer ends its message. -/
theorem Live.proceed_done (hn : n.Live γ A) (hbusy : n.Engaged (some a))
    (hnone : ∀ p, (a, p) ∉ n.pending) (hready : .consumer a ∈ n.ready) (failure : Option String)
    (hs : γ.fits s) :
    (n.proceed a (.done failure, s)).Flows γ A ∧ n.Sinks (n.proceed a (.done failure, s)) ∧
      (n.proceed a (.done failure, s)).work h ≤ n.work h := by
  have hn' := hn.with_shared hs
  have hc := hn'.channel?_eq a.topic
  have hmoves := (hn'.smooth a.topic).finish a.consumer
  have hlength := ((channelAt { n with shared := s } a.topic).kept_finish a.consumer).length_eq
  have hproceed : n.proceed a (.done failure, s)
      = Network.put { n with shared := s } a.topic
        ((channelAt { n with shared := s } a.topic).finish a.consumer) := by
    have hsame := setPending_none_eq (n := { n with shared := s }) hnone
    show modify (setPending { n with shared := s } a none) a.topic _ = _
    rw [hsame, modify, hc]
  have hwork := work_put (h := h) hc hlength
  rw [Channel.channelWork_finish] at hwork
  have hwoken : ((channelAt { n with shared := s } a.topic).finish a.consumer).woken.length = 0 :=
    congrArg List.length (hn'.woken a.topic)
  have hsame : work h { n with shared := s } = n.work h := rfl
  rw [hproceed]
  refine ⟨⟨?_, ?_⟩, ?_, by omega⟩
  · exact hn'.put hmoves (fun h => h.finish _) (fun _ => hready) (fun d b rest hd _ => by cases hd)
  · exact Engaged.finish (n := { n with shared := s }) hbusy hnone fun j =>
      Channel.holds_finish _ _ _
  · exact (Sinks.of_eq (n := n) rfl).trans (sinks_put hmoves)

/-- A consumer waits for a send further down. -/
theorem Live.proceed_send (hn : n.Live γ A) (hbusy : n.Engaged (some a))
    (hnone : ∀ p, (a, p) ∉ n.pending) (hready : .consumer a ∈ n.ready) {topic : Topic}
    (m : Message π) {rest : κ} (hs : γ.fits s) (hrank : γ.rank topic < γ.rank a.topic)
    (hleft : γ.left a.topic rest) :
    (n.proceed a (.send topic m rest, s)).Flows γ A ∧
      n.Sinks (n.proceed a (.send topic m rest, s)) ∧
      (n.proceed a (.send topic m rest, s)).work h ≤ n.work h
        + n.population topic * (h.cost n.population topic + 2) + 2
        + h.restCost n.population rest := by
  have hn' := hn.with_shared hs
  -- the send starts in nobody's hands, and then the consumer takes it on
  have hsent := hn'.send (h := h) topic m
  rw [proceed_send_eq]
  generalize (Network.send { n with shared := s } topic m).1 = n₁ at *
  generalize (Network.send { n with shared := s } topic m).2 = t at *
  have hpending : n₁.pending = n.pending := by rw [hsent.same]
  have hready' : n₁.ready = n.ready := by rw [hsent.same]
  have hawaited : n₁.awaited = n.awaited := by rw [hsent.same]
  have hnone' : ∀ p, (a, p) ∉ n₁.pending := by
    rw [hpending]
    exact hnone
  refine ⟨⟨hsent.live.keep hnone' ?_ ?_ hleft hsent.underWay ?_ ?_ ?_, ?_⟩, ?_, ?_⟩
  · rw [hready']
    exact hready
  · rw [hsent.topic_eq]
    exact hrank
  · exact fun ht => hsent.fresh (hn'.outside t ht)
  · rw [hready']
    exact fun ht => hsent.fresh (hn'.sender ht)
  · rw [hawaited]
    exact fun ht => hsent.fresh (hn'.outside t (hn'.awaited t ht))
  · exact (hsent.engaged hbusy).keep _
  · exact hsent.sinks.trans (.of_eq rfl)
  · rw [work_setPending_some hnone', hsent.population_eq]
    exact Nat.add_le_add_right hsent.work_le _

/-- A consumer that begins or goes on with a message ends it, or waits for a send. -/
theorem Live.proceed (hn : n.Live γ A) (hbusy : n.Engaged (some a))
    (hnone : ∀ p, (a, p) ∉ n.pending) (hready : .consumer a ∈ n.ready) {steps : Nat}
    {next : Next π κ × σ} (hnext : γ.Descends h n.population a.topic steps next) :
    (n.proceed a next).Flows γ A ∧ n.Sinks (n.proceed a next) ∧
      (n.proceed a next).work h + 2 ≤ n.work h + steps := by
  cases hnext with
  | done failure hs hsteps =>
    obtain ⟨hflows, hsinks, hwork⟩ := hn.proceed_done (h := h) hbusy hnone hready failure hs
    exact ⟨hflows, hsinks, Nat.add_le_add hwork hsteps⟩
  | send m hs hrank hleft hsteps =>
    obtain ⟨hflows, hsinks, hwork⟩ := hn.proceed_send (h := h) hbusy hnone hready m hs hrank hleft
    exact ⟨hflows, hsinks, by omega⟩

end Proceed

/-- A consumer without a message leaves the line. -/
theorem takeNext_nothing {a : Address} {c : Channel ℓ π} (hc : n.channel? a.topic = some c)
    (htake : c.take a.consumer = (c, none)) : n.takeNext h a = (n.put a.topic c).rest := by
  rw [takeNext, hc]
  simp only [htake]

/-- A consumer with a message takes it and begins. -/
theorem takeNext_message {a : Address} {c c' : Channel ℓ π} {k : Consumer ℓ π} {m : Message π}
    (hc : n.channel? a.topic = some c) (hk : c.consumers[a.consumer]? = some k)
    (htake : c.take a.consumer = (c', some m)) :
    n.takeNext h a = (n.put a.topic c').proceed a (h.start k.label m n.shared) := by
  rw [takeNext, hc]
  simp only [htake, hk]

/-- A consumer that is in the midst of no message takes its turn. -/
theorem Flows.takeNext (hγ : γ.Governs h) (hn : n.Flows γ A) {a : Address} {tail : List Actor}
    (hready : n.ready = .consumer a :: tail) (hnone : ∀ p, (a, p) ∉ n.pending) :
    Nearer γ h A n (n.takeNext h a) := by
  have hc := hn.channel?_eq a.topic
  have hstaffed := fun h : (n.channelAt a.topic).Staffed (γ.placed a.topic) => h.take a.consumer
  have hlength := ((n.channelAt a.topic).kept_take a.consumer).length_eq
  have htaking := (hn.smooth a.topic).take a.consumer
  have hwoken := hn.woken a.topic
  generalize hresult : (n.channelAt a.topic).take a.consumer = result at htaking hstaffed hlength
  cases htaking with
  | nothing hidle =>
    rw [takeNext_nothing hc hresult]
    have hput : (n.put a.topic (n.channelAt a.topic)).Flows γ A :=
      ⟨hn.put ((hn.smooth a.topic).moves_refl (.consumer a.consumer)) id (fun h => absurd h hidle)
        (fun d b rest hd _ => by cases hd), hn.engaged.put fun _ => rfl⟩
    have hready' : (n.put a.topic (n.channelAt a.topic)).ready = .consumer a :: tail := by
      rw [put_eq n a.topic hwoken]
      exact hready
    -- it is not due on its channel, and waits for no send, so it may rest
    have hidle' : (n.put a.topic (n.channelAt a.topic)).IsIdle (.consumer a) := by
      refine ⟨fun hdue => hidle ?_, fun t rest hmem => absurd hmem ?_⟩
      · rw [channelAt_put, if_pos rfl] at hdue
        exact hdue.congr rfl rfl rfl
      · rw [pending_put]
        exact hnone _
    have hwork := work_put (h := h) hc rfl
    have hrest := work_rest (h := h) hready'
    rw [hwoken, List.length_nil] at hwork
    refine ⟨⟨hput.rest hready' hidle', hput.engaged⟩, ?_, by omega⟩
    exact (sinks_put ((hn.smooth a.topic).moves_refl (.consumer a.consumer))).trans (.of_eq rfl)
  | @message k m c hk hmoves hidle hholds hwoken' hwork' =>
    rw [takeNext_message hc hk hresult]
    have hlive : (n.put a.topic c).Live γ A :=
      hn.put hmoves hstaffed (fun h => absurd h hidle) (fun d b rest hd _ => by cases hd)
    have hnone' : ∀ p, (a, p) ∉ (n.put a.topic c).pending := by
      rw [pending_put]
      exact hnone
    have hready' : .consumer a ∈ (n.put a.topic c).ready := by
      refine mem_ready_put.2 (.inl ?_)
      rw [hready]
      exact List.mem_cons_self
    have hplaced := hn.staffed a.topic k (List.mem_of_getElem? hk)
    -- what it does with the message costs less than the message did in its queue
    have hnext := hγ.start hplaced m hn.fits (n.put a.topic c).population
    obtain ⟨hflows, hsinks, hproceed⟩ := hlive.proceed (hn.engaged.take hholds) hnone' hready' hnext
    refine ⟨hflows, (sinks_put hmoves).trans hsinks, ?_⟩
    have hwork := work_put (h := h) (c := c) hc hlength
    have hcost := hwork' (h.cost n.population a.topic)
    rw [hwoken, List.length_nil] at hwoken'
    rw [population_put hc hlength] at hproceed
    omega

/-! ### Sends that go on -/

/-- What the completion of a send changes on its channel. -/
structure Completes (γ : Cascade ℓ σ κ) (n : Network ℓ π σ κ) (t : Ticket) (c : Channel ℓ π) :
    Prop where
  moves : (n.channelAt t.topic).Moves c (.delivery t.delivery)
  staffed : (n.channelAt t.topic).Staffed (γ.placed t.topic) → c.Staffed (γ.placed t.topic)
  holds_eq : ∀ j, c.holds j = (n.channelAt t.topic).holds j
  length_eq : c.consumers.length = (n.channelAt t.topic).consumers.length
  woken : c.woken = []
  ended : ¬c.IsUnderWay t.delivery
  work_le : ∀ cost, channelWork cost c ≤ channelWork cost (n.channelAt t.topic)

/-- Of the sends, only `t` may have come to be able to do something. -/
def WakesOnly (t : Ticket) (n n' : Network ℓ π σ κ) : Prop :=
  ∀ topic d, (n'.channelAt topic).Due (.delivery d) →
    (n.channelAt topic).Due (.delivery d) ∨ ⟨topic, d⟩ = t

/-- A step of a send that wakes no other lets no other send do anything new. -/
theorem wakesOnly_put {t : Ticket} {c : Channel ℓ π}
    (hmoves : (n.channelAt t.topic).Moves c (.delivery t.delivery))
    (hwoken : ∀ d, .delivery d ∉ c.woken) : n.WakesOnly t (n.put t.topic c) := by
  intro topic d hdue
  rw [channelAt_put] at hdue
  split at hdue
  · next htopic =>
    subst htopic
    have hdue' : c.Due (.delivery d) := hdue.congr rfl rfl rfl
    rcases hmoves.due hdue' with hold | hnew | hturn
    · exact .inl hold
    · exact absurd hnew (hwoken d)
    · cases hturn
      exact .inr rfl
  · exact .inl hdue

/-- What a step of a send may come to. -/
inductive Advancing (γ : Cascade ℓ σ κ) (h : Handlers ℓ π σ κ) (A : List Ticket)
    (n : Network ℓ π σ κ) (t : Ticket) : Network ℓ π σ κ × MarketEngine.Progress → Prop
  | moved {n' : Network ℓ π σ κ} (hnearer : Nearer γ h A n n') (hwakes : n.WakesOnly t n')
    (hleft : (n'.channelAt t.topic).left t.delivery < (n.channelAt t.topic).left t.delivery) :
    Advancing γ h A n t (n', .moved)
  | blocked {n' : Network ℓ π σ κ} (hflows : n'.Flows γ A) (hsinks : n.Sinks n')
    (hwakes : n.WakesOnly t n') (hwork : n'.work h ≤ n.work h) (hready : n'.ready = n.ready)
    (hpending : n'.pending = n.pending)
    (hidle : ¬(n'.channelAt t.topic).Due (.delivery t.delivery)) :
    Advancing γ h A n t (n', .blocked)
  | completed {c : Channel ℓ π} (hcompletes : n.Completes γ t c) :
    Advancing γ h A n t (n.put t.topic c, .completed)

/-- One step of a send that is attended to: it goes past a consumer and the network is nearer to
rest, it is blocked in line where it was not, or it is completed. In the first two cases the network
flows on. In the third its channel has changed, and who waits for the send is yet to be told. -/
theorem Flows.advance (hn : n.Flows γ A) {t : Ticket}
    (hattended : n.Attended A t.topic (.delivery t.delivery)) :
    Advancing γ h A n t (n.advance t) := by
  have hc := hn.channel?_eq t.topic
  have hstaffed := fun h : (n.channelAt t.topic).Staffed (γ.placed t.topic) => h.advance t.delivery
  have hlength := (n.channelAt t.topic).length_advance t.delivery
  have hadvancing := (hn.smooth t.topic).advance t.delivery
  have hwoken := hn.woken t.topic
  have hadvance : n.advance t = (n.put t.topic ((n.channelAt t.topic).advance t.delivery).1,
      ((n.channelAt t.topic).advance t.delivery).2) := by
    rw [Network.advance, hc]
  rw [hadvance]
  generalize (n.channelAt t.topic).advance t.delivery = result at *
  -- nobody waits for a send that is no longer under way
  have howned : result.1.IsUnderWay t.delivery → ∀ d a rest,
      Wake.delivery t.delivery = .delivery d → (a, .sending ⟨t.topic, d⟩ rest) ∈ n.pending →
      result.1.IsUnderWay d := by
    intro hunderWay d a rest hd _
    cases hd
    exact hunderWay
  cases hadvancing with
  | @moved c hd hmoves hholds hwoken' hleft hwork' =>
    have hwork := work_put (h := h) (c := c) hc hlength
    have hcost := hwork' (h.cost n.population t.topic)
    -- the consumer that is woken costs a turn, which is less than going past it cost
    have hone : c.woken.length ≤ 1 := by
      rw [hwoken] at hwoken'
      rcases hwoken' with hnobody | ⟨i, hsomebody⟩
      · rw [hnobody]
        exact Nat.zero_le _
      · rw [hsomebody]
        exact Nat.le_refl _
    refine .moved ⟨⟨hn.put hmoves hstaffed (fun _ => hattended) (howned hd), hn.engaged.put hholds⟩,
      sinks_put hmoves, ?_⟩ (wakesOnly_put hmoves fun d hd => ?_) ?_
    · show (n.put t.topic c).work h < _
      omega
    · rw [hwoken] at hwoken'
      rcases hwoken' with hnobody | ⟨i, hsomebody⟩
      · simp [hnobody] at hd
      · simp [hsomebody] at hd
    · rw [channelAt_put, if_pos rfl]
      show c.left t.delivery < _
      omega
  | @blocked c hd hmoves hline hholds hwoken' hwork' =>
    have hwork := work_put (h := h) (c := c) hc hlength
    have hcost := hwork' (h.cost n.population t.topic)
    have hnobody : c.woken = [] := hwoken'.trans hwoken
    rw [hnobody, List.length_nil] at hwork
    refine .blocked ⟨hn.put hmoves hstaffed (fun h => absurd h hline) (howned hd),
      hn.engaged.put hholds⟩ (sinks_put hmoves) (wakesOnly_put hmoves (by simp [hnobody])) ?_ ?_
      (pending_put n t.topic c) ?_
    · show (n.put t.topic c).work h ≤ _
      omega
    · show (n.put t.topic c).ready = _
      rw [put_eq n t.topic hnobody]
    · rw [channelAt_put, if_pos rfl]
      exact fun hdue => hline (hdue.congr rfl rfl rfl)
  | @completed c hended hmoves hholds hwoken' hwork' =>
    exact .completed ⟨hmoves, hstaffed, hholds, hlength, hwoken'.trans hwoken, hended, hwork'⟩

section Completes

variable {t : Ticket} {c : Channel ℓ π}

/-- A completed send adds no work. -/
theorem Completes.work_put_le (hcompletes : n.Completes γ t c)
    (hc : n.channel? t.topic = some (n.channelAt t.topic)) :
    (n.put t.topic c).work h ≤ n.work h := by
  have hwork := work_put (h := h) hc hcompletes.length_eq
  have hcost := hcompletes.work_le (h.cost n.population t.topic)
  rw [hcompletes.woken, List.length_nil] at hwork
  omega

/-- A completed send has nothing left to do. -/
theorem Completes.not_due (hcompletes : n.Completes γ t c) :
    ¬((n.put t.topic c).channelAt t.topic).Due (.delivery t.delivery) := by
  rw [channelAt_put, if_pos rfl]
  exact fun hdue => hcompletes.ended hdue.1

/-- A send is completed that no consumer waits for. -/
theorem Flows.complete (hn : n.Flows γ A) (hcompletes : n.Completes γ t c) (hloose : n.Loose t) :
    (n.put t.topic c).Flows γ A where
  toLive := by
    refine hn.put hcompletes.moves hcompletes.staffed (fun hdue => absurd hdue.1 hcompletes.ended)
      fun d a rest hd hmem => ?_
    cases hd
    exact absurd hmem (hloose.2 a rest)
  engaged := hn.engaged.put hcompletes.holds_eq

/-- A send is completed that a consumer waits for: the consumer has it no more. -/
theorem Flows.conclude (hn : n.Flows γ A) (hcompletes : n.Completes γ t c) {a : Address} {rest : κ}
    (hmem : (a, .sending t rest) ∈ n.pending) :
    ((n.put t.topic c).setPending a none).Live γ A ∧
      ((n.put t.topic c).setPending a none).Engaged (some a) := by
  have hreleased := hn.release hmem
  have hsame : (n.put t.topic c).setPending a none = (n.setPending a none).put t.topic c := by
    rw [put_eq _ _ hcompletes.woken, put_eq _ _ hcompletes.woken]
    rfl
  rw [hsame]
  have hlive : ((n.setPending a none).put t.topic c).Live γ (t :: A) := by
    refine hreleased.put (n := n.setPending a none) hcompletes.moves hcompletes.staffed
      (fun hdue => absurd hdue.1 hcompletes.ended) fun d b rest' hd hmem' => ?_
    cases hd
    exact absurd hmem' ((hreleased.outside t List.mem_cons_self).2 b rest')
  refine ⟨hlive.drop (List.subset_cons_self t A) ?_ fun t' ht' => ?_,
    Engaged.put (n := n.setPending a none) (hn.engaged.release hmem) hcompletes.holds_eq⟩
  · rw [awaited_put]
    exact hn.awaited
  · rcases List.mem_cons.1 ht' with rfl | ht'
    · rw [channelAt_put, if_pos rfl]
      exact .inr fun hdue => hcompletes.ended hdue.1
    · exact .inl ht'

end Completes

/-- Who is done with one message and goes on with another is in the midst of the latter. -/
theorem setPending_setPending (n : Network ℓ π σ κ) (a : Address) (p : Option (Pending κ)) :
    (n.setPending a none).setPending a p = n.setPending a p := by
  simp [setPending, List.filter_filter]

/-- Who goes on gives up what it waited for. -/
theorem proceed_setPending (hn : ∀ {topic c}, n.channel? topic = some c → c.woken = [])
    (a : Address) (next : Next π κ × σ) :
    (n.setPending a none).proceed a next = n.proceed a next := by
  obtain ⟨next, shared⟩ := next
  cases next with
  | done failure =>
    have hsame := setPending_setPending { n with shared } a none
    exact congrArg (fun n : Network ℓ π σ κ => n.modify a.topic (·.finish a.consumer)) hsame
  | send topic m rest =>
    have hsend : ∀ n' : Network ℓ π σ κ, n'.channels = n.channels →
        (n'.setPending a none).send topic m
          = ((n'.send topic m).1.setPending a none, (n'.send topic m).2) := by
      intro n' hn'
      have hsame : (n'.setPending a none).channel? topic = n'.channel? topic := rfl
      rw [Network.send, Network.send, hsame]
      cases hc : n'.channel? topic with
      | none => rfl
      | some c =>
        rw [channel?, hn'] at hc
        have hwoken : (c.send m).1.woken = [] := (Channel.woken_send c m).trans (hn hc)
        simp only [put_eq _ _ hwoken]
        rfl
    have hgiven := hsend { n with shared } rfl
    have hsame : { n.setPending a none with shared } = setPending { n with shared } a none := rfl
    rw [proceed_send_eq, proceed_send_eq, hsame, hgiven]
    exact setPending_setPending ..
  | wait rest =>
    have hsame := setPending_setPending { n with shared } a (some (.waiting rest))
    exact congrArg Network.rest hsame

/-- A consumer whose send is completed goes on with its message. -/
theorem Flows.goOn (hγ : γ.Governs h) (hn : n.Flows γ A) {a : Address} {t : Ticket} {rest : κ}
    (hp : n.pending.lookup a = some (.sending t rest)) (hready : .consumer a ∈ n.ready)
    {c : Channel ℓ π} (hcompletes : n.Completes γ t c) :
    Nearer γ h A n ((n.put t.topic c).proceed a (h.resume rest (n.put t.topic c).shared)) := by
  have hmem := mem_of_lookup hp
  obtain ⟨_, _, hsending, -, hleft, -⟩ := hn.pending hmem
  cases hsending
  obtain ⟨hlive, hbusy⟩ := hn.conclude hcompletes hmem
  have hcalm := calm_put n t.topic c
  have hwoken : ∀ {topic c'}, (n.put t.topic c).channel? topic = some c' → c'.woken = [] := by
    intro topic c' hc'
    have hwoken := hlive.woken topic
    change ((n.put t.topic c).channelAt topic).woken = [] at hwoken
    rw [channelAt, hc'] at hwoken
    exact hwoken
  have hready' : .consumer a ∈ ((n.put t.topic c).setPending a none).ready :=
    mem_ready_put.2 (.inl hready)
  have hpopulation : ((n.put t.topic c).setPending a none).population = n.population :=
    population_put (hn.channel?_eq t.topic) hcompletes.length_eq
  have hnext := hγ.resume hleft hn.fits ((n.put t.topic c).setPending a none).population
  obtain ⟨hflows, hsinks, hproceed⟩ :=
    hlive.proceed hbusy (fun p hp' => (mem_setPending_none.1 hp').2 rfl) hready' hnext
  have hwork := hcompletes.work_put_le (h := h) (hn.channel?_eq t.topic)
  -- the rest of the message was counted while it waited, and pays for what follows
  have hpaid := work_setPending_none (n := n.put t.topic c) (h := h) (hcalm.orderly hn.orderly)
    (by rw [hcalm.pending_eq]; exact hp)
  rw [hpopulation] at hproceed
  rw [population_put (hn.channel?_eq t.topic) hcompletes.length_eq] at hpaid
  rw [hcalm.shared_eq, ← proceed_setPending hwoken]
  refine ⟨hflows, ((sinks_put hcompletes.moves).trans (.of_eq rfl)).trans hsinks, ?_⟩
  change _ + h.restCost n.population rest = _ at hpaid
  omega

/-- Who has nothing to do may leave the line. -/
theorem Flows.rest (hn : n.Flows γ A) {head : Actor} {tail : List Actor}
    (hready : n.ready = head :: tail) (hidle : n.IsIdle head) : n.rest.Flows γ A :=
  ⟨hn.toLive.rest hready hidle, hn.engaged⟩

/-- Whoever is first in line goes on. -/
theorem Flows.step (hγ : γ.Governs h) (hn : n.Flows γ A) (hready : n.ready ≠ []) :
    Nearer γ h A n (n.step h) := by
  obtain ⟨head, tail, hhead⟩ := List.exists_cons_of_ne_nil hready
  have hmem : head ∈ n.ready := by
    rw [hhead]
    exact List.mem_cons_self
  rw [Network.step, hhead]
  cases head with
  | sender t =>
    have hadvancing := hn.advance (h := h) (t := t) (.inr (.inl hmem))
    simp only
    generalize n.advance t = result at hadvancing ⊢
    cases hadvancing with
    | moved hnearer => exact hnearer
    | @blocked n' hflows hsinks _ hwork hready' _ hidle =>
      rw [hhead] at hready'
      have hrest := work_rest (h := h) hready'
      exact ⟨hflows.rest hready' hidle, hsinks.trans (.of_eq rfl),
        by show n'.rest.work h < _; omega⟩
    | @completed c hcompletes =>
      have hready' : (n.put t.topic c).ready = .sender t :: tail := by
        rw [put_eq _ _ hcompletes.woken]
        exact hhead
      have hflows := hn.complete hcompletes (hn.sender hmem)
      have hwork := hcompletes.work_put_le (h := h) (hn.channel?_eq t.topic)
      have hrest := work_rest (h := h) hready'
      exact ⟨hflows.rest hready' hcompletes.not_due,
        (sinks_put hcompletes.moves).trans (.of_eq rfl),
        by show (n.put t.topic c).rest.work h < _; omega⟩
  | consumer a =>
    simp only
    cases hp : n.pending.lookup a with
    | none => exact hn.takeNext hγ hhead (not_mem_of_lookup hp)
    | some p =>
      have hmem' := mem_of_lookup hp
      obtain ⟨t, rest, rfl, -, hleft, -⟩ := hn.pending hmem'
      -- the consumer waits for a send of its own, and takes that one a step further
      have hadvancing := hn.advance (h := h) (t := t) (.inr (.inr ⟨a, rest, hmem', hmem⟩))
      simp only
      generalize n.advance t = result at hadvancing ⊢
      cases hadvancing with
      | moved hnearer => exact hnearer
      | @blocked n' hflows hsinks _ hwork hready' hpending hidle =>
        rw [hhead] at hready'
        have hidle' : n'.IsIdle (.consumer a) := by
          rw [← hpending] at hmem'
          refine ⟨fun hdue => ?_, fun t' rest' hmem'' => ?_⟩
          · -- it is handling a message
            obtain ⟨k, hk, hheld, -⟩ := hdue
            have hholds := (hflows.engaged a).2 (.inl ⟨_, hmem'⟩)
            rw [Channel.holds, hk, Option.any_some, hheld] at hholds
            simp at hholds
          · cases hflows.orderly.eq_of_mem hmem' hmem''
            exact hidle
        have hrest := work_rest (h := h) hready'
        exact ⟨hflows.rest hready' hidle', hsinks.trans (.of_eq rfl),
          by show n'.rest.work h < _; omega⟩
      | @completed c hcompletes =>
        exact hn.goOn hγ hp hmem hcompletes

/-! ## Runs -/

/-- With as many steps as there is work, the network comes to rest. -/
theorem Flows.run (hγ : γ.Governs h) (steps : Nat) (hn : n.Flows γ A) :
    (run h steps n).Flows γ A ∧ n.Sinks (run h steps n) ∧
      (n.work h ≤ steps → (run h steps n).ready = []) := by
  induction steps generalizing n with
  | zero =>
    refine ⟨hn, .of_eq rfl, fun hwork => ?_⟩
    rw [work_eq] at hwork
    show n.ready = []
    exact List.length_eq_zero_iff.1 (by omega)
  | succ steps ih =>
    rw [Network.run]
    by_cases hready : n.ready = []
    · rw [if_pos (by simp [hready])]
      exact ⟨hn, .of_eq rfl, fun _ => hready⟩
    · rw [if_neg (by simp [hready])]
      have hnearer := hn.step hγ hready
      obtain ⟨hflows, hsinks, hrest⟩ := ih hnearer.flows
      refine ⟨hflows, hnearer.sinks.trans hsinks, fun hwork => hrest ?_⟩
      have hless := hnearer.work_lt
      omega

/-- A network that runs for as many steps as there is work has nobody left in line. -/
theorem Flows.settle (hγ : γ.Governs h) (hn : n.Flows γ A) :
    (n.settle h).Flows γ A ∧ n.Sinks (n.settle h) ∧ (n.settle h).ready = [] := by
  obtain ⟨hflows, hsinks, hrest⟩ := hn.run hγ (n.work h)
  exact ⟨hflows, hsinks, hrest (Nat.le_refl _)⟩

end Network

end MarketEngine
