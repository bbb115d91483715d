import MarketEngine.Proofs.Channel.Progress
import Mathlib.Algebra.Order.BigOperators.Group.List
import Mathlib.Algebra.Order.Group.Nat
/-!
# Nothing is left waiting

A network at rest whose consumers send down a cascade has nothing left to do, unless a send that
somebody outside carries on could go on (`Network.Flows.drained`). So whoever waits from outside
until sends are completed does so in the end (`Network.Flows.await`), as each round takes one of
them past a consumer or completes all.
-/

namespace MarketEngine

variable {ℓ π σ κ : Type}

/-- Nothing is left to do on a channel: all sends are completed, and no consumer has a message or is
waited for. -/
structure Channel.Drained (c : Channel ℓ π) : Prop where
  underWay : c.underWay = []
  consumers : ∀ k ∈ c.consumers, k.queue = [] ∧ k.held = none ∧ k.waiting = [] ∧ k.granted = []

namespace Channel

/-- Where no send is under way none is listed. -/
theorem underWay_eq_nil {c : Channel ℓ π} (h : ∀ d, ¬c.IsUnderWay d) : c.underWay = [] := by
  rw [underWay, List.map_eq_nil_iff, List.filter_eq_nil_iff]
  rintro ⟨s, d⟩ hs
  have hlt := (List.getElem?_eq_some_iff.1 (List.mk_mem_zipIdx_iff_getElem?.1 hs)).1
  have hsent : d ∈ c.sent := by
    by_contra hsent
    exact h d ⟨hlt, hsent⟩
  simp [isSent, hsent]

/-- A send that has nobody before it can complete. -/
theorem due_of_left {c : Channel ℓ π} {d : Nat} (hd : c.IsUnderWay d) (hleft : c.left d = 0) :
    c.Due (.delivery d) := by
  refine ⟨hd, fun i k hnext _ => ?_⟩
  obtain ⟨s, hs, hhead⟩ := Option.bind_eq_some_iff.1 hnext
  rw [left, hs, Option.elim_some, List.length_eq_zero_iff] at hleft
  rw [hleft] at hhead
  simp at hhead

/-- Where nobody can do anything and no message is being handled, there is nothing to do: a send
would wait for a place, and the first for which one is kept could go on. -/
theorem Smooth.drained {c : Channel ℓ π} (h : c.Smooth) (hidle : ∀ w, ¬c.Due w)
    (hheld : ∀ i, c.holds i = false) : c.Drained := by
  have hnone : ∀ {i : Nat} {k}, c.consumers[i]? = some k → k.held = none := by
    intro i k hk
    have hholds := hheld i
    rw [holds, hk, Option.any_some, Option.isSome_eq_false_iff, Option.isNone_iff_eq_none] at hholds
    exact hholds
  have hqueue : ∀ {i : Nat} {k}, c.consumers[i]? = some k → k.queue = [] := by
    intro i k hk
    by_contra hne
    exact hidle (.consumer i) ⟨k, hk, hnone hk, hne⟩
  -- queues are empty, so whoever has a place kept could use it, and whoever waits could have one
  have hgranted : ∀ {i : Nat} {k}, c.consumers[i]? = some k → k.granted = [] := by
    intro i k hk
    have hfair := h.fair hk
    refine List.eq_nil_iff_forall_not_mem.2 fun d hd => ?_
    have hnext := hfair.next_eq d (List.mem_append_right _ hd)
    refine hidle (.delivery d) ⟨h.isUnderWay hnext, fun i' k' hnext' hk' hwaits => ?_⟩
    obtain rfl : i = i' := Option.some.inj (hnext.symm.trans hnext')
    obtain rfl : k = k' := Option.some.inj (hk.symm.trans hk')
    exact (List.nodup_append'.1 hfair.nodup).2.2 hwaits hd
  have hwaiting : ∀ {i : Nat} {k}, c.consumers[i]? = some k → k.waiting = [] := by
    intro i k hk
    by_contra hne
    have hfull := (h.fair hk).full hne
    have hpos := h.capacity_pos
    rw [Consumer.taken, hqueue hk, hgranted hk] at hfull
    simp only [List.length_nil] at hfull
    omega
  refine ⟨underWay_eq_nil fun d hd => hidle (.delivery d) ⟨hd, fun i k _ hk => ?_⟩, fun k hk => ?_⟩
  · rw [hwaiting hk]
    exact List.not_mem_nil
  · obtain ⟨i, hi⟩ := List.getElem?_of_mem hk
    exact ⟨hqueue hi, hnone hi, hwaiting hi, hgranted hi⟩

/-- On a drained channel every send that was started is completed. -/
theorem Drained.not_isUnderWay {c : Channel ℓ π} (h : c.Drained) (d : Nat) : ¬c.IsUnderWay d :=
  fun hd => hd.2 (mem_sent h.underWay (List.getElem?_eq_getElem hd.1))

end Channel

namespace Network

variable {γ : Cascade ℓ σ κ} {h : Handlers ℓ π σ κ} {A : List Ticket} {n n' : Network ℓ π σ κ}

/-- Nothing is left to do: no consumer is in the midst of a message, and on no channel. -/
structure Drained (n : Network ℓ π σ κ) : Prop where
  pending : n.pending = []
  channels : ∀ topic, ∃ c, n.channel? topic = some c ∧ c.Drained

/-- At rest nothing is left to do on any channel. A consumer could only be in the midst of a message
while it waits for a send further down the cascade. -/
theorem Flows.drained_channelAt (hn : n.Flows γ A) (hready : n.ready = [])
    (hA : ∀ t ∈ A, ¬(n.channelAt t.topic).Due (.delivery t.delivery)) (topic : Topic) :
    (n.channelAt topic).Drained := by
  have hidle : ∀ topic w, ¬(n.channelAt topic).Due w := by
    intro topic w hdue
    have hattended := hn.attended hdue
    cases w with
    | consumer i => simp [Attended, hready] at hattended
    | delivery d =>
      rcases hattended with hmem | hsender | ⟨a, rest, -, ha⟩
      · exact hA _ hmem hdue
      · simp [hready] at hsender
      · simp [hready] at ha
  -- by induction on how far up a topic stands
  have hdrained : ∀ r topic, γ.rank topic < r → (n.channelAt topic).Drained := by
    intro r
    induction r with
    | zero => exact fun topic hrank => absurd hrank (Nat.not_lt_zero _)
    | succ r ih =>
      intro topic hrank
      refine (hn.smooth topic).drained (hidle topic) fun i => ?_
      rw [Bool.eq_false_iff]
      intro hholds
      rcases (hn.engaged ⟨topic, i⟩).1 hholds with ⟨p, hp⟩ | hbusy
      · obtain ⟨t, rest, -, hlower, -, hunderWay⟩ := hn.pending hp
        exact (ih t.topic (Nat.lt_of_lt_of_le hlower (Nat.le_of_lt_succ hrank))).not_isUnderWay _
          hunderWay
      · simp at hbusy
  exact hdrained _ topic (Nat.lt_succ_self _)

/-- If nobody is to go on and the sends from outside cannot, then nothing is left to do. Somebody
who waits would wait for another with a later topic, who would wait in turn, and there is no end of
topics. -/
theorem Flows.drained (hn : n.Flows γ A) (hready : n.ready = [])
    (hA : ∀ t ∈ A, ¬(n.channelAt t.topic).Due (.delivery t.delivery)) : n.Drained where
  pending := List.eq_nil_iff_forall_not_mem.2 fun ⟨a, p⟩ hp => by
    obtain ⟨t, rest, -, -, -, hunderWay⟩ := hn.pending hp
    exact (hn.drained_channelAt hready hA t.topic).not_isUnderWay _ hunderWay
  channels topic := ⟨_, hn.channel?_eq topic, hn.drained_channelAt hready hA topic⟩

/-! ## Sends that are carried on from outside -/

/-- How many consumers a send has before it, as its channel says. -/
theorem remaining_eq (hn : n.Live γ A) (t : Ticket) :
    n.remaining t = (n.channelAt t.topic).left t.delivery := by
  rw [remaining, hn.channel?_eq]
  rfl

/-- A send is seen to be completed once it is not under way. -/
theorem isCompleted_iff (hn : n.Live γ A) {t : Ticket} (ht : n.Loose t) :
    n.isCompleted t = true ↔ ¬(n.channelAt t.topic).IsUnderWay t.delivery := by
  have hlt := ht.1
  rw [isCompleted, hn.channel?_eq, Option.all_some]
  simp [Channel.isSent, Channel.IsUnderWay, hlt]

/-- How many consumers sends have before them in all. -/
def lag (n : Network ℓ π σ κ) (tickets : List Ticket) : Nat :=
  (tickets.map fun t => (n.channelAt t.topic).left t.delivery).sum

/-- Sends from outside have no more consumers before them when a network sinks. -/
theorem lag_le (hsinks : n.Sinks n') {tickets : List Ticket} (htickets : ∀ t ∈ tickets, n.Loose t) :
    n'.lag tickets ≤ n.lag tickets :=
  List.sum_le_sum fun t ht => (hsinks t.topic).2 _ (htickets t ht).1

/-- A send that goes past a consumer brings down the sum. -/
theorem lag_lt (hsinks : n.Sinks n') {tickets : List Ticket} (htickets : ∀ t ∈ tickets, n.Loose t)
    {t : Ticket} (ht : t ∈ tickets)
    (hleft : (n'.channelAt t.topic).left t.delivery < (n.channelAt t.topic).left t.delivery) :
    n'.lag tickets < n.lag tickets :=
  List.sum_lt_sum _ _ (fun t ht => (hsinks t.topic).2 _ (htickets t ht).1) ⟨t, ht, hleft⟩

/-- Sends of `A` went on from outside: no other send can do something now that could not before, and
if nobody new stands in line then no send went on. -/
structure Driven (γ : Cascade ℓ σ κ) (A : List Ticket) (n n' : Network ℓ π σ κ) : Prop where
  flows : n'.Flows γ A
  sinks : n.Sinks n'
  due : ∀ ⦃topic : Topic⦄ ⦃d : Nat⦄, (n'.channelAt topic).Due (.delivery d) →
    (n.channelAt topic).Due (.delivery d)
  lag : n'.lag A < n.lag A ∨ n'.ready = n.ready

/-- Where nothing went on nobody can do anything new. -/
theorem Flows.driven_refl (hn : n.Flows γ A) : Driven γ A n n :=
  ⟨hn, .of_eq rfl, fun _ _ hdue => hdue, .inr rfl⟩

/-- One send after the other goes on: either one of them went past a consumer, or nobody new stands
in line. -/
theorem Driven.trans {n'' : Network ℓ π σ κ} (hA : ∀ t ∈ A, n.Loose t) (h : Driven γ A n n')
    (h' : Driven γ A n' n'') : Driven γ A n n'' where
  flows := h'.flows
  sinks := h.sinks.trans h'.sinks
  due _ _ hdue := h.due (h'.due hdue)
  lag := by
    have hle := lag_le h.sinks hA
    have hle' := lag_le h'.sinks fun t ht => h.flows.outside t ht
    rcases h.lag with hless | hready
    · exact .inl (Nat.lt_of_le_of_lt hle' hless)
    · rcases h'.lag with hless' | hready'
      · exact .inl (Nat.lt_of_lt_of_le hless' hle)
      · exact .inr (hready'.trans hready)

/-- A send went on until it could do nothing more: then nothing else can be new. -/
theorem driven_of_wakesOnly (hflows : n'.Flows γ A) (hsinks : n.Sinks n') {t : Ticket}
    (hwakes : n.WakesOnly t n') (hidle : ¬(n'.channelAt t.topic).Due (.delivery t.delivery))
    (hlag : n'.lag A < n.lag A ∨ n'.ready = n.ready) : Driven γ A n n' := by
  refine ⟨hflows, hsinks, fun topic d hdue => (hwakes topic d hdue).resolve_right ?_, hlag⟩
  rintro rfl
  exact hidle hdue

/-- A send that is driven for more steps than it has consumers before it cannot go on afterwards:
with each step it went past one, unless it is blocked. -/
theorem Flows.driveFor (h : Handlers ℓ π σ κ) (hn : n.Flows γ A) {t : Ticket} (ht : t ∈ A)
    {steps : Nat} (hsteps : (n.channelAt t.topic).left t.delivery < steps) :
    Driven γ A n (n.driveFor t steps) ∧
      ¬((n.driveFor t steps).channelAt t.topic).Due (.delivery t.delivery) := by
  induction steps generalizing n with
  | zero => exact absurd hsteps (Nat.not_lt_zero _)
  | succ steps ih =>
    have hadvancing := hn.advance (h := h) (t := t) (.inl ht)
    rw [Network.driveFor]
    generalize n.advance t = result at hadvancing ⊢
    cases hadvancing with
    | @moved n' hnearer hwakes hleft =>
      obtain ⟨hdriven, hidle⟩ := ih hnearer.flows (by omega)
      refine ⟨driven_of_wakesOnly hdriven.flows (hnearer.sinks.trans hdriven.sinks)
        (fun topic d hdue => hwakes topic d (hdriven.due hdue)) hidle (.inl ?_), hidle⟩
      have hless := lag_lt hnearer.sinks hn.outside ht hleft
      exact Nat.lt_of_le_of_lt (lag_le hdriven.sinks hnearer.flows.outside) hless
    | @blocked n' hflows hsinks hwakes _ hready _ hidle =>
      exact ⟨driven_of_wakesOnly hflows hsinks hwakes hidle (.inr hready), hidle⟩
    | @completed c hcompletes =>
      refine ⟨driven_of_wakesOnly (hn.complete hcompletes (hn.outside t ht))
        (sinks_put hcompletes.moves) (wakesOnly_put hcompletes.moves (by simp [hcompletes.woken]))
        hcompletes.not_due (.inr ?_), hcompletes.not_due⟩
      show (n.put t.topic c).ready = _
      rw [put_eq _ _ hcompletes.woken]

/-- A send that is driven as far as it goes cannot go on afterwards. -/
theorem Flows.drive (h : Handlers ℓ π σ κ) (hn : n.Flows γ A) {t : Ticket} (ht : t ∈ A) :
    Driven γ A n (n.drive t) ∧
      ¬((n.drive t).channelAt t.topic).Due (.delivery t.delivery) := by
  refine hn.driveFor h ht ?_
  rw [remaining_eq hn.toLive]
  exact Nat.lt_succ_self _

/-- All sends of a list were carried on as far as they could go. -/
theorem Flows.foldl_drive (h : Handlers ℓ π σ κ) (hn : n.Flows γ A) {tickets : List Ticket}
    (htickets : tickets ⊆ A) :
    Driven γ A n (tickets.foldl Network.drive n) ∧
      ∀ t ∈ tickets,
        ¬((tickets.foldl Network.drive n).channelAt t.topic).Due (.delivery t.delivery) := by
  induction tickets generalizing n with
  | nil => exact ⟨hn.driven_refl, List.forall_mem_nil _⟩
  | cons t rest ih =>
    obtain ⟨hdriven, hidle⟩ := hn.drive h (htickets List.mem_cons_self)
    obtain ⟨hrest, hidles⟩ := ih hdriven.flows fun t ht => htickets (List.mem_cons_of_mem _ ht)
    refine ⟨hdriven.trans hn.outside hrest, fun t' ht' => ?_⟩
    rcases List.mem_cons.1 ht' with rfl | ht'
    · exact fun hdue => hidle (hrest.due hdue)
    · exact hidles t' ht'

/-! ## Waiting from outside -/

/-- All sends of a list are completed. -/
def Settled (n : Network ℓ π σ κ) (tickets : List Ticket) : Prop :=
  ∀ t ∈ tickets, ¬(n.channelAt t.topic).IsUnderWay t.delivery

/-- The caller sees all its sends completed when none is under way. -/
theorem all_isCompleted_iff (hn : n.Live γ A) :
    A.all n.isCompleted = true ↔ n.Settled A := by
  rw [List.all_eq_true]
  exact forall₂_congr fun t ht => isCompleted_iff hn (hn.outside t ht)

/-- Sends that cannot go on, and that have nobody before them, are completed. -/
theorem settled_of_lag (hidle : ∀ t ∈ A, ¬(n.channelAt t.topic).Due (.delivery t.delivery))
    (hlag : n.lag A = 0) : n.Settled A := by
  intro t ht hunderWay
  have hleft : (n.channelAt t.topic).left t.delivery = 0 := by
    have hle := List.le_sum_of_mem
      (List.mem_map_of_mem (f := fun t => (n.channelAt t.topic).left t.delivery) ht)
    exact Nat.le_zero.1 (Nat.le_trans hle (Nat.le_of_eq hlag))
  exact hidle t ht (Channel.due_of_left hunderWay hleft)

/-- A round of carrying sends on: it completes all of them, or else the network comes to rest, and
if it was at rest before then a send went past a consumer. -/
theorem Flows.round (hγ : γ.Governs h) (hn : n.Flows γ A) (rounds : Nat) :
    (Network.carryOn h A (rounds + 1) n).Flows γ A ∧
      (Network.carryOn h A (rounds + 1) n).Settled A ∨
    ∃ n', Network.carryOn h A (rounds + 1) n = Network.carryOn h A rounds n' ∧ n'.Flows γ A ∧
      n'.ready = [] ∧ max (n'.lag A) 1 ≤ n.lag A ∧
      (n.ready = [] → max (n'.lag A) 1 < n.lag A) := by
  obtain ⟨hdriven, hidle⟩ := hn.foldl_drive h (List.Subset.refl A)
  rw [Network.carryOn]
  generalize A.foldl Network.drive n = n₁ at hdriven hidle ⊢
  have hcompleted := all_isCompleted_iff hdriven.flows.toLive
  by_cases hall : A.all n₁.isCompleted = true
  · rw [if_pos hall]
    exact .inl ⟨hdriven.flows, hcompleted.1 hall⟩
  · rw [if_neg hall]
    rw [hcompleted] at hall
    have hpos : 0 < n₁.lag A := by
      rw [Nat.pos_iff_ne_zero]
      exact fun hlag => hall (settled_of_lag hidle hlag)
    have hle := lag_le hdriven.sinks hn.outside
    have hless : n.ready = [] → n₁.lag A < n.lag A := by
      intro hready
      refine hdriven.lag.resolve_right fun hsame => hall fun t _ => ?_
      have hdrained := hdriven.flows.drained_channelAt (hsame.trans hready) hidle t.topic
      exact hdrained.not_isUnderWay _
    obtain ⟨hflows, hsinks, hrest⟩ := hdriven.flows.settle hγ
    have hle' := lag_le hsinks hdriven.flows.outside
    refine .inr ⟨_, rfl, hflows, hrest, by omega, fun hready => ?_⟩
    have hless' := hless hready
    omega

/-- An outside caller who carries on its sends and lets everybody else go on in between has them
completed, in as many rounds as they have consumers before them. A round without progress would
leave the network at rest with a send under way, and then it is drained. -/
theorem Flows.carryOn (hγ : γ.Governs h) {rounds : Nat} (hn : n.Flows γ A) (hready : n.ready = [])
    (hrounds : max (n.lag A) 1 ≤ rounds) :
    (Network.carryOn h A rounds n).Flows γ A ∧ (Network.carryOn h A rounds n).Settled A := by
  induction rounds generalizing n with
  | zero =>
    have hone := Nat.le_trans (Nat.le_max_right (n.lag A) 1) hrounds
    exact absurd hone (Nat.not_succ_le_zero 0)
  | succ rounds ih =>
    rcases hn.round hγ rounds with hdone | ⟨n', hsame, hflows, hrest, -, hless⟩
    · exact hdone
    · rw [hsame]
      have hlag := hless hready
      exact ih hflows hrest (by omega)

/-- Whoever waits from outside for sends does so until all are completed, and then nobody outside
has to carry anything on. -/
theorem Flows.await (hγ : γ.Governs h) (hn : n.Flows γ A) : (n.await h A).Flows γ [] := by
  have hawaiting : Flows γ A { n with awaited := A } :=
    ⟨{ hn.toLive with awaited := fun _ ht => ht }, hn.engaged⟩
  have hlag : (A.map n.remaining).foldr (· + ·) 0 = lag { n with awaited := A } A := by
    rw [← List.sum_eq_foldr, lag]
    congr 2
    funext t
    exact remaining_eq hn.toLive t
  rw [Network.await]
  generalize (A.map n.remaining).foldr (· + ·) 0 = rounds at hlag ⊢
  have hdone : (Network.carryOn h A (rounds + 1) { n with awaited := A }).Flows γ A ∧
      (Network.carryOn h A (rounds + 1) { n with awaited := A }).Settled A := by
    rcases hawaiting.round hγ rounds with hdone | ⟨n', hsame, hflows, hrest, hle, -⟩
    · exact hdone
    · rw [hsame]
      exact hflows.carryOn hγ hrest (by rw [hlag]; exact hle)
  generalize Network.carryOn h A (rounds + 1) { n with awaited := A } = n' at hdone ⊢
  obtain ⟨hflows, hsettled⟩ := hdone
  have hlive : Live γ A { n' with awaited := [] } :=
    { hflows.toLive with awaited := List.forall_mem_nil _ }
  exact ⟨hlive.drop (List.nil_subset A) (List.forall_mem_nil _)
    fun t ht => .inr fun hdue => hsettled t ht hdue.1, hflows.engaged⟩

/-! ## Operations from outside -/

/-- The order in which somebody outside carries sends on does not matter. -/
theorem Flows.of_mem_iff {A' : List Ticket} (hn : n.Flows γ A) (hA : ∀ t, t ∈ A ↔ t ∈ A') :
    n.Flows γ A' :=
  ⟨hn.toLive.drop (fun t ht => (hA t).2 ht) (fun t ht => (hA t).1 (hn.awaited t ht))
    fun t ht => .inl ((hA t).1 ht), hn.engaged⟩

/-- The state that the consumers share may be another one that fits. -/
theorem Flows.with_shared (hn : n.Flows γ A) {shared : σ} (hs : γ.fits shared) :
    Flows γ A { n with shared } :=
  ⟨hn.toLive.with_shared hs, hn.engaged⟩

/-- After a send from outside that is waited for, the network flows as before. -/
theorem Flows.sendAndAwait (hγ : γ.Governs h) (hn : n.Flows γ []) (topic : Topic) (m : Message π) :
    (n.sendAndAwait h topic m).Flows γ [] := by
  have hsent := hn.toLive.send (h := h) topic m
  have hflows : (n.send topic m).1.Flows γ [(n.send topic m).2] :=
    ⟨hsent.live, hsent.engaged hn.engaged⟩
  exact hflows.await hγ

/-- A send goes on in the background. -/
theorem Flows.spawn (h : Handlers ℓ π σ κ) (hn : n.Flows γ A) (topic : Topic) (m : Message π) :
    ((n.send topic m).1.enqueue (.sender (n.send topic m).2)).Flows γ A := by
  have hsent := hn.toLive.send (h := h) topic m
  generalize (n.send topic m).1 = n' at *
  have hawaited : n'.awaited = n.awaited := by rw [hsent.same]
  refine ⟨hsent.live.leave fun t ht => hn.awaited t (hawaited ▸ ht), ?_⟩
  rw [enqueue_eq]
  exact hsent.engaged hn.engaged

/-- A consumer that subscribes in its place disturbs nobody. -/
theorem Flows.subscribe (hn : n.Flows γ A) (topic : Topic) (label : ℓ) (s : Subscription)
    (hlabel : γ.placed topic label) : (n.subscribe topic label s).Flows γ A := by
  rw [Network.subscribe, Network.modify, hn.channel?_eq]
  refine ⟨hn.put ((hn.smooth topic).subscribe label s (.consumer 0)) (fun h => h.subscribe hlabel s)
    (fun hdue => hn.attended (Channel.due_of_subscribe hdue)) (fun d a rest hd _ => by cases hd),
    hn.engaged.put (Channel.holds_subscribe _ label s)⟩

/-- Somebody outside handles something as a consumer would. -/
theorem Flows.handle (hγ : γ.Governs h) (sends : Nat) (hn : n.Flows γ []) {topic : Topic}
    {population : Topic → Nat} {steps : Nat} {next : Next π κ × σ}
    (hnext : γ.Descends h population topic steps next) :
    (Network.handle h sends n next).1.Flows γ [] := by
  induction sends generalizing n steps next with
  | zero =>
    cases hnext with
    | done failure hs => exact hn.with_shared hs
    | send m hs => exact hn.with_shared hs
  | succ sends ih =>
    cases hnext with
    | done failure hs => exact hn.with_shared hs
    | @send topic' m rest s hs hrank hleft =>
      have hsent := (hn.with_shared hs).sendAndAwait hγ topic' m
      exact ih hsent (hγ.resume hleft hsent.fits population)

/-! ## Any order -/

/-- The activity at this place in line goes first. -/
def prefer (n : Network ℓ π σ κ) (k : Nat) : Network ℓ π σ κ :=
  match n.ready[k]? with
  | some a => { n with ready := a :: n.ready.eraseIdx k }
  | none => n

/-- At each turn the activity at some place in line goes first. -/
def turns (h : Handlers ℓ π σ κ) (n : Network ℓ π σ κ) (places : List Nat) : Network ℓ π σ κ :=
  places.foldl (fun n k => (n.prefer k).step h) n

/-- Who goes first is no matter of who is to go on at all. -/
theorem ready_prefer (n : Network ℓ π σ κ) (k : Nat) : (n.prefer k).ready.Perm n.ready := by
  unfold prefer
  split
  · next a ha =>
    obtain ⟨hlt, rfl⟩ := List.getElem?_eq_some_iff.1 ha
    exact List.getElem_cons_eraseIdx_perm hlt
  · exact .refl _

/-- Only the line changes when somebody is put first in it. -/
theorem prefer_eq (n : Network ℓ π σ κ) (k : Nat) :
    n.prefer k = { n with ready := (n.prefer k).ready } := by
  unfold prefer
  split <;> rfl

/-- The network flows whoever goes first. -/
theorem Flows.prefer (hn : n.Flows γ A) (k : Nat) : (n.prefer k).Flows γ A := by
  have hready : ∀ {b}, b ∈ (n.prefer k).ready ↔ b ∈ n.ready := (n.ready_prefer k).mem_iff
  rw [prefer_eq] at hready ⊢
  refine ⟨{ hn.toLive with sender := fun t ht => hn.sender (hready.1 ht), attended := ?_ },
    hn.engaged⟩
  intro topic w hw
  have hattended := hn.attended hw
  cases w with
  | consumer i => exact hready.2 hattended
  | delivery d =>
    rcases hattended with hmem | hsender | ⟨a, rest, hmem, ha⟩
    · exact .inl hmem
    · exact .inr (.inl (hready.2 hsender))
    · exact .inr (.inr ⟨a, rest, hmem, hready.2 ha⟩)

/-- The work is the same whoever goes first. -/
theorem work_prefer (n : Network ℓ π σ κ) (k : Nat) : (n.prefer k).work h = n.work h := by
  have hlength := (n.ready_prefer k).length_eq
  rw [work_eq, work_eq, hlength, prefer_eq]
  rfl

/-- At rest nobody takes a turn. -/
theorem turns_of_rest (hready : n.ready = []) (places : List Nat) : n.turns h places = n := by
  induction places with
  | nil => rfl
  | cons k rest ih =>
    have hprefer : n.prefer k = n := by
      rw [prefer, hready]
      rfl
    have hstep : n.step h = n := by rw [step, hready]
    rw [turns, List.foldl_cons, hprefer, hstep]
    exact ih

/-- Whoever goes first at each turn, after as many turns as there is work the network is at rest. -/
theorem Flows.turns (hγ : γ.Governs h) (hn : n.Flows γ A) (places : List Nat) :
    (n.turns h places).Flows γ A ∧ (n.work h ≤ places.length → (n.turns h places).ready = []) := by
  induction places generalizing n with
  | nil =>
    refine ⟨hn, fun hwork => ?_⟩
    rw [work_eq] at hwork
    show n.ready = []
    exact List.length_eq_zero_iff.1 (by simp only [List.length_nil] at hwork; omega)
  | cons k rest ih =>
    by_cases hready : n.ready = []
    · rw [turns_of_rest hready]
      exact ⟨hn, fun _ => hready⟩
    · have hready' : (n.prefer k).ready ≠ [] := fun hnil =>
        hready (List.perm_nil.1 (hnil ▸ (n.ready_prefer k).symm))
      have hnearer := (hn.prefer k).step hγ hready'
      obtain ⟨hflows, hrest⟩ := ih hnearer.flows
      refine ⟨hflows, fun hwork => hrest ?_⟩
      have hless := hnearer.work_lt
      rw [work_prefer] at hless
      rw [List.length_cons] at hwork
      omega

end Network

end MarketEngine
