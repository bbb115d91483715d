import MarketEngine.Proofs.Channel.Activity
import MarketEngine.Proofs.Channel.Moves
/-!
# Nobody who can go on is forgotten

In a network whose channels nobody stops, whoever can do something stands in line, or is a send that
somebody outside carries on (`Network.Live`). A send under way belongs to one consumer that waits
for it, to somebody outside, or to the background, and can be handed from one to the other
(`Network.Live.release`, `Network.Live.keep`, `Network.Live.leave`, `Network.Live.drop`).

Consumers only send down a cascade of topics (`Cascade`).
-/

namespace MarketEngine

variable {ℓ π σ κ : Type}

/-- A cascade of topics: where consumers stand, and how far up. -/
structure Cascade (ℓ σ κ : Type) where
  /-- Consumers only send to topics of a lower rank. -/
  rank : Topic → Nat
  /-- The consumers that a topic may have. -/
  placed : Topic → ℓ → Prop
  /-- What the consumers of a topic may have left to do. -/
  left : Topic → κ → Prop
  /-- The shared states. -/
  fits : σ → Prop

namespace Cascade

/-- What a consumer does next stays within the cascade, and within so many steps. -/
inductive Descends (γ : Cascade ℓ σ κ) (h : Handlers ℓ π σ κ) (population : Topic → Nat)
    (topic : Topic) (steps : Nat) : Next π κ × σ → Prop
  | done (failure : Option String) {s : σ} (hs : γ.fits s) (hsteps : 2 ≤ steps) :
    Descends γ h population topic steps (.done failure, s)
  | send {topic' : Topic} (m : Message π) {rest : κ} {s : σ} (hs : γ.fits s)
    (hrank : γ.rank topic' < γ.rank topic) (hleft : γ.left topic rest)
    (hsteps : population topic' * (h.cost population topic' + 2) + h.restCost population rest + 4
      ≤ steps) :
    Descends γ h population topic steps (.send topic' m rest, s)

/-- Consumers that never wait for anything but their sends, and that send down the cascade. -/
structure Governs (γ : Cascade ℓ σ κ) (h : Handlers ℓ π σ κ) : Prop where
  start : ∀ {topic : Topic} {label : ℓ}, γ.placed topic label → ∀ (m : Message π) {s : σ},
    γ.fits s → ∀ population, γ.Descends h population topic (h.cost population topic)
      (h.start label m s)
  resume : ∀ {topic : Topic} {rest : κ}, γ.left topic rest → ∀ {s : σ}, γ.fits s →
    ∀ population, γ.Descends (π := π) h population topic (h.restCost population rest)
      (h.resume rest s)

end Cascade

namespace Network

/-- The channel of a topic. -/
def channelAt (n : Network ℓ π σ κ) (topic : Topic) : Channel ℓ π :=
  (n.channel? topic).getD (.empty 1 1)

/-- A channel that is put back stands in its place with nobody left to wake. -/
theorem channelAt_put (n : Network ℓ π σ κ) (topic topic' : Topic) (c : Channel ℓ π) :
    (n.put topic c).channelAt topic'
      = if topic' = topic then { c with woken := [] } else n.channelAt topic' := by
  rw [channelAt, channel?_put]
  by_cases htopic : topic' = topic
  · simp [htopic]
  · simp [htopic, channelAt]

/-! ## Who stands in line -/

/-- Only the line changes when somebody is to go on. -/
theorem enqueue_eq (n : Network ℓ π σ κ) (a : Actor) :
    n.enqueue a = { n with ready := (n.enqueue a).ready } := by
  unfold enqueue
  split <;> rfl

/-- Somebody who is to go on stands in line, once. -/
theorem mem_ready_enqueue {n : Network ℓ π σ κ} {a b : Actor} :
    b ∈ (n.enqueue a).ready ↔ b ∈ n.ready ∨ b = a := by
  unfold enqueue
  split
  · next ha =>
    refine ⟨.inl, fun hb => hb.elim id fun hb => ?_⟩
    rw [hb]
    exact List.contains_iff_mem.1 ha
  · simp

/-- All who are to go on stand in line, behind those who stood there. -/
theorem mem_ready_foldl_enqueue {actors : List Actor} {n : Network ℓ π σ κ} {b : Actor} :
    b ∈ (actors.foldl enqueue n).ready ↔ b ∈ n.ready ∨ b ∈ actors := by
  induction actors generalizing n with
  | nil => simp
  | cons a rest ih => rw [List.foldl_cons, ih, mem_ready_enqueue, List.mem_cons, or_assoc]

/-- The line grows by no more than those who are to go on. -/
theorem length_ready_foldl_enqueue (actors : List Actor) (n : Network ℓ π σ κ) :
    (actors.foldl enqueue n).ready.length ≤ n.ready.length + actors.length := by
  induction actors generalizing n with
  | nil => exact Nat.le_refl _
  | cons a rest ih =>
    have henqueue : (n.enqueue a).ready.length ≤ n.ready.length + 1 := by
      unfold enqueue
      split
      · exact Nat.le_succ _
      · exact Nat.le_of_eq List.length_append
    have hrest := ih (n := n.enqueue a)
    rw [List.foldl_cons, List.length_cons]
    omega

/-- With a channel that is put back those stand in line whom it has woken. -/
theorem mem_ready_put {n : Network ℓ π σ κ} {topic : Topic} {c : Channel ℓ π} {b : Actor} :
    b ∈ (n.put topic c).ready ↔ b ∈ n.ready ∨ ∃ w ∈ c.woken, n.actor? topic w = some b := by
  rw [put, mem_ready_foldl_enqueue, List.mem_filterMap]

/-- The line grows by no more than whom the channel has woken. -/
theorem length_ready_put (n : Network ℓ π σ κ) (topic : Topic) (c : Channel ℓ π) :
    (n.put topic c).ready.length ≤ n.ready.length + c.woken.length := by
  have hfold := length_ready_foldl_enqueue (c.woken.filterMap (n.actor? topic))
    { n with channels := n.channels.put topic { c with woken := [] } }
  have hactors := List.length_filterMap_le (n.actor? topic) c.woken
  exact Nat.le_trans hfold (Nat.add_le_add_left hactors _)

/-- Where nobody is woken, only the channel changes. -/
theorem put_eq (n : Network ℓ π σ κ) (topic : Topic) {c : Channel ℓ π} (h : c.woken = []) :
    n.put topic c = { n with channels := n.channels.put topic c } := by
  rw [put, h]
  cases c
  cases h
  rfl

/-- For whom somebody waits from outside is no matter of the channels. -/
theorem awaited_put (n : Network ℓ π σ κ) (topic : Topic) (c : Channel ℓ π) :
    (n.put topic c).awaited = n.awaited := by
  have hfold : ∀ (actors : List Actor) (n : Network ℓ π σ κ),
      (actors.foldl enqueue n).awaited = n.awaited := by
    intro actors
    induction actors with
    | nil => exact fun _ => rfl
    | cons a rest ih =>
      intro n
      rw [List.foldl_cons, ih, enqueue]
      split <;> rfl
  rw [put, hfold]

/-- Who is in the midst of a message is no matter of the channels. -/
theorem pending_put (n : Network ℓ π σ κ) (topic : Topic) (c : Channel ℓ π) :
    (n.put topic c).pending = n.pending := (calm_put n topic c).pending_eq

/-! ## Sends and their owners -/

/-- A send that no consumer waits for. -/
def Loose (n : Network ℓ π σ κ) (t : Ticket) : Prop :=
  t.delivery < (n.channelAt t.topic).deliveries.length ∧
    ∀ a rest, (a, .sending t rest) ∉ n.pending

/-- Whoever can do something on a channel stands in line, or is one of the sends `A` that are
carried on outside. -/
def Attended (A : List Ticket) (n : Network ℓ π σ κ) (topic : Topic) : Wake → Prop
  | .consumer i => .consumer ⟨topic, i⟩ ∈ n.ready
  | .delivery d => ⟨topic, d⟩ ∈ A ∨ .sender ⟨topic, d⟩ ∈ n.ready ∨
    ∃ a rest, (a, .sending ⟨topic, d⟩ rest) ∈ n.pending ∧ .consumer a ∈ n.ready

/-- Nobody who can do something is forgotten, where the sends `A` are carried on outside. -/
structure Live (γ : Cascade ℓ σ κ) (A : List Ticket) (n : Network ℓ π σ κ) : Prop where
  fits : γ.fits n.shared
  channel?_eq : ∀ topic, n.channel? topic = some (n.channelAt topic)
  smooth : ∀ topic, (n.channelAt topic).Smooth
  woken : ∀ topic, (n.channelAt topic).woken = []
  staffed : ∀ topic, (n.channelAt topic).Staffed (γ.placed topic)
  orderly : n.Orderly
  pending : ∀ ⦃a : Address⦄ ⦃p : Pending κ⦄, (a, p) ∈ n.pending → ∃ t rest, p = .sending t rest ∧
    γ.rank t.topic < γ.rank a.topic ∧ γ.left a.topic rest ∧
    (n.channelAt t.topic).IsUnderWay t.delivery
  owner : ∀ ⦃a a' : Address⦄ ⦃t : Ticket⦄ ⦃rest rest' : κ⦄, (a, .sending t rest) ∈ n.pending →
    (a', .sending t rest') ∈ n.pending → a = a'
  sender : ∀ ⦃t : Ticket⦄, .sender t ∈ n.ready → n.Loose t
  outside : ∀ t ∈ A, n.Loose t
  awaited : ∀ t ∈ n.awaited, t ∈ A
  attended : ∀ ⦃topic : Topic⦄ ⦃w : Wake⦄, (n.channelAt topic).Due w → n.Attended A topic w

/-- The consumers that handle a message are those in the midst of one, and perhaps another. -/
def Engaged (busy : Option Address) (n : Network ℓ π σ κ) : Prop :=
  ∀ a : Address, (n.channelAt a.topic).holds a.consumer = true ↔
    (∃ p, (a, p) ∈ n.pending) ∨ busy = some a

/-- Whoever is first in line has nothing to do. -/
def IsIdle (n : Network ℓ π σ κ) : Actor → Prop
  | .consumer a => ¬(n.channelAt a.topic).Due (.consumer a.consumer) ∧
    ∀ t rest, (a, .sending t rest) ∈ n.pending → ¬(n.channelAt t.topic).Due (.delivery t.delivery)
  | .sender t => ¬(n.channelAt t.topic).Due (.delivery t.delivery)

/-- Nobody is in the midst of two messages. -/
theorem Orderly.eq_of_mem {n : Network ℓ π σ κ} (h : n.Orderly) {a : Address} {p q : Pending κ}
    (hp : (a, p) ∈ n.pending) (hq : (a, q) ∈ n.pending) : p = q :=
  congrArg Prod.snd (List.inj_on_of_nodup_map h hp hq rfl)

/-- A consumer that is done is in the midst of nothing, and the others are where they were. -/
theorem mem_setPending_none {n : Network ℓ π σ κ} {a b : Address} {p : Pending κ} :
    (b, p) ∈ (n.setPending a none).pending ↔ (b, p) ∈ n.pending ∧ b ≠ a := by
  simp [setPending]

/-- A consumer that goes on is in the midst of what it goes on with, and the others are where they
were. -/
theorem mem_setPending_some {n : Network ℓ π σ κ} {a b : Address} {p q : Pending κ} :
    (b, p) ∈ (n.setPending a (some q)).pending ↔
      b = a ∧ p = q ∨ (b, p) ∈ n.pending ∧ b ≠ a := by
  simp [setPending]

/-- The consumer that a send is traced back to waits for it. -/
theorem mem_of_senderOf? {n : Network ℓ π σ κ} {t : Ticket} {a : Address}
    (h : n.senderOf? t = some a) : ∃ rest, (a, .sending t rest) ∈ n.pending := by
  obtain ⟨⟨a', p⟩, hfind, rfl⟩ := Option.map_eq_some_iff.1 h
  have hmem := List.mem_of_find?_eq_some hfind
  have hp := List.find?_some hfind
  cases p with
  | waiting rest => simp at hp
  | sending t' rest =>
    simp only [beq_iff_eq] at hp
    subst hp
    exact ⟨rest, hmem⟩

/-- Nobody waits for a send that is traced back to nobody. -/
theorem not_mem_of_senderOf? {n : Network ℓ π σ κ} {t : Ticket} (h : n.senderOf? t = none)
    (a : Address) (rest : κ) : (a, .sending t rest) ∉ n.pending := by
  intro hmem
  have hnone := List.find?_eq_none.1 (Option.map_eq_none_iff.1 h) _ hmem
  simp at hnone

/-- A send that no consumer waits for stays so when a consumer waits for nothing any more. -/
theorem Loose.setPending_none {n : Network ℓ π σ κ} {t : Ticket} (ht : n.Loose t) (a : Address) :
    (n.setPending a none).Loose t :=
  ⟨ht.1, fun b rest hb => ht.2 b rest (mem_setPending_none.1 hb).1⟩

/-- A send that no consumer waits for stays so when a consumer waits for another. -/
theorem Loose.setPending_some {n : Network ℓ π σ κ} {t t' : Ticket} (ht : n.Loose t) (hne : t' ≠ t)
    (a : Address) (rest : κ) : (n.setPending a (some (.sending t' rest))).Loose t := by
  refine ⟨ht.1, fun b rest' hb => ?_⟩
  rcases mem_setPending_some.1 hb with ⟨-, hp⟩ | ⟨hb, -⟩
  · cases hp
    exact hne rfl
  · exact ht.2 b rest' hb

/-- A send that no consumer waits for stays so when a channel changes. -/
theorem Loose.put {n : Network ℓ π σ κ} {t : Ticket} (ht : n.Loose t) {topic : Topic}
    {c : Channel ℓ π} (hlength : (n.channelAt topic).deliveries.length ≤ c.deliveries.length) :
    (n.put topic c).Loose t := by
  refine ⟨?_, by rw [pending_put]; exact ht.2⟩
  have hlt := ht.1
  rw [channelAt_put]
  split
  · next htopic =>
    rw [htopic] at hlt
    exact Nat.lt_of_lt_of_le hlt hlength
  · exact hlt

/-- A send goes on in the background only if no consumer waits for it. -/
theorem loose_of_actor? {n : Network ℓ π σ κ} {topic : Topic} {w : Wake} {t : Ticket}
    (hactor : n.actor? topic w = some (.sender t)) {c : Channel ℓ π}
    (hw : ∀ d, w = .delivery d → d < c.deliveries.length) : (n.put topic c).Loose t := by
  cases w with
  | consumer i => simp [actor?] at hactor
  | delivery d =>
    cases hsender : n.senderOf? ⟨topic, d⟩ with
    | some a => simp [actor?, hsender] at hactor
    | none =>
      by_cases hawaits : ⟨topic, d⟩ ∈ n.awaited
      · simp [actor?, hsender, hawaits] at hactor
      · obtain rfl : (⟨topic, d⟩ : Ticket) = t := by
          simpa [actor?, hsender, hawaits] using hactor
        refine ⟨?_, by rw [pending_put]; exact not_mem_of_senderOf? hsender⟩
        rw [channelAt_put, if_pos rfl]
        exact hw d rfl

/-- Who is woken is attended to. -/
theorem attended_of_woken {A : List Ticket} {n : Network ℓ π σ κ}
    (hawaited : ∀ t ∈ n.awaited, t ∈ A) {topic : Topic} {c : Channel ℓ π} {w : Wake}
    (hw : w ∈ c.woken) :
    (n.put topic c).Attended A topic w := by
  have hready : ∀ {b}, n.actor? topic w = some b → b ∈ (n.put topic c).ready := fun hb =>
    mem_ready_put.2 (.inr ⟨w, hw, hb⟩)
  cases w with
  | consumer i => exact hready rfl
  | delivery d =>
    cases hsender : n.senderOf? ⟨topic, d⟩ with
    | some a =>
      obtain ⟨rest, hmem⟩ := mem_of_senderOf? hsender
      rw [← pending_put n topic c] at hmem
      exact .inr (.inr ⟨a, rest, hmem, hready (by simp [actor?, hsender])⟩)
    | none =>
      by_cases hawaits : ⟨topic, d⟩ ∈ n.awaited
      · exact .inl (hawaited _ hawaits)
      · exact .inr (.inl (hready (by simp [actor?, hsender, hawaits])))

/-- Who is attended to stays so when more stand in line, wait or are carried on outside. -/
theorem Attended.mono {A A' : List Ticket} {n n' : Network ℓ π σ κ} {topic : Topic} {w : Wake}
    (h : n.Attended A topic w) (hA : A ⊆ A') (hready : n.ready ⊆ n'.ready)
    (hpending : n.pending ⊆ n'.pending) : n'.Attended A' topic w := by
  cases w with
  | consumer i => exact hready h
  | delivery d =>
    rcases h with hmem | hsender | ⟨a, rest, hmem, ha⟩
    · exact .inl (hA hmem)
    · exact .inr (.inl (hready hsender))
    · exact .inr (.inr ⟨a, rest, hpending hmem, hready ha⟩)

namespace Live

variable {γ : Cascade ℓ σ κ} {A : List Ticket} {n : Network ℓ π σ κ}

/-! ## Steps on one channel -/

/-- A step on a channel, where somebody outside may take on sends that no consumer waits for. -/
theorem putting (h : n.Live γ A) {A' : List Ticket} (hA : A ⊆ A') {topic : Topic}
    {c : Channel ℓ π} (houtside : ∀ t ∈ A', t ∈ A ∨ (n.put topic c).Loose t) {turn : Wake}
    (hmoves : (n.channelAt topic).Moves c turn)
    (hstaffed : (n.channelAt topic).Staffed (γ.placed topic) → c.Staffed (γ.placed topic))
    (hturn : c.Due turn → n.Attended A' topic turn)
    (howned : ∀ d a rest, turn = .delivery d → (a, .sending ⟨topic, d⟩ rest) ∈ n.pending →
      c.IsUnderWay d) : (n.put topic c).Live γ A' := by
  have hchannelAt := n.channelAt_put topic
  have hloose : ∀ {t}, n.Loose t → (n.put topic c).Loose t := fun ht => ht.put hmoves.length_le
  have hgrown : n.ready ⊆ (n.put topic c).ready := fun b hb => mem_ready_put.2 (.inl hb)
  have hpending : n.pending ⊆ (n.put topic c).pending := by
    rw [pending_put]
    exact List.Subset.refl _
  -- other channels are as they were; on this one the step answers for whom it makes due
  refine ⟨?_, fun topic' => ?_, fun topic' => ?_, fun topic' => ?_, fun topic' => ?_, ?_,
    fun a p hp => ?_, ?_, fun t ht => ?_, fun t ht => ?_, ?_, fun topic' w hw => ?_⟩
  · rw [(calm_put n topic c).shared_eq]
    exact h.fits
  · rw [channel?_put, hchannelAt]
    by_cases htopic : topic' = topic
    · simp [htopic]
    · simp [htopic, h.channel?_eq]
  · rw [hchannelAt]
    split
    · exact hmoves.smooth.congr rfl rfl rfl rfl rfl rfl
    · exact h.smooth topic'
  · rw [hchannelAt]
    split
    · rfl
    · exact h.woken topic'
  · rw [hchannelAt]
    split
    · next htopic =>
      rw [htopic]
      exact hstaffed (h.staffed topic)
    · exact h.staffed topic'
  · exact (calm_put n topic c).orderly h.orderly
  · rw [pending_put] at hp
    obtain ⟨t, rest, rfl, hrank, hleft, hunderWay⟩ := h.pending hp
    refine ⟨t, rest, rfl, hrank, hleft, ?_⟩
    rw [hchannelAt]
    split
    · next htopic =>
      obtain ⟨topic', d⟩ := t
      obtain rfl : topic' = topic := htopic
      rcases hmoves.underWay hunderWay with hstill | hturn
      · exact hstill
      · exact howned d a rest hturn hp
    · exact hunderWay
  · rw [pending_put]
    exact h.owner
  · rcases mem_ready_put.1 ht with hold | ⟨w, hw, hactor⟩
    · exact hloose (h.sender hold)
    · refine loose_of_actor? hactor fun d hd => ?_
      rw [hd] at hw
      refine (hmoves.woken hw).resolve_left fun hold => ?_
      rw [h.woken topic] at hold
      exact List.not_mem_nil hold
  · exact (houtside t ht).elim (fun hold => hloose (h.outside t hold)) id
  · rw [awaited_put]
    exact fun t ht => hA (h.awaited t ht)
  · rw [hchannelAt] at hw
    split at hw
    · next htopic =>
      subst htopic
      have hdue : c.Due w := hw.congr rfl rfl rfl
      -- who is due now was due before, was woken, or is whose turn it is
      rcases hmoves.due hdue with hold | hwoken | rfl
      · exact (h.attended hold).mono hA hgrown hpending
      · exact attended_of_woken (fun t ht => hA (h.awaited t ht)) hwoken
      · exact (hturn hdue).mono (List.Subset.refl _) hgrown hpending
    · exact (h.attended hw).mono hA hgrown hpending

/-- A step on a channel. -/
theorem put (h : n.Live γ A) {topic : Topic} {c : Channel ℓ π} {turn : Wake}
    (hmoves : (n.channelAt topic).Moves c turn)
    (hstaffed : (n.channelAt topic).Staffed (γ.placed topic) → c.Staffed (γ.placed topic))
    (hturn : c.Due turn → n.Attended A topic turn)
    (howned : ∀ d a rest, turn = .delivery d → (a, .sending ⟨topic, d⟩ rest) ∈ n.pending →
      c.IsUnderWay d) : (n.put topic c).Live γ A :=
  h.putting (List.Subset.refl _) (fun _ ht => .inl ht) hmoves hstaffed hturn howned

/-- Whoever is first in line and has nothing to do goes to rest. -/
theorem rest (h : n.Live γ A) {head : Actor} {tail : List Actor} (hready : n.ready = head :: tail)
    (hidle : n.IsIdle head) : n.rest.Live γ A where
  fits := h.fits
  channel?_eq := h.channel?_eq
  smooth := h.smooth
  woken := h.woken
  staffed := h.staffed
  orderly := h.orderly
  pending := h.pending
  owner := h.owner
  sender t ht := h.sender (List.mem_of_mem_tail ht)
  outside := h.outside
  awaited := h.awaited
  attended topic w hw := by
    -- the only one that leaves the line is not the one that attends to anything
    have htail : ∀ {b}, b ∈ n.ready → b ≠ head → b ∈ n.rest.ready := by
      intro b hb hne
      rw [hready] at hb
      rw [Network.rest, hready]
      exact (List.mem_cons.1 hb).resolve_left hne
    have hattended := h.attended hw
    cases w with
    | consumer i =>
      refine htail hattended ?_
      rintro rfl
      exact hidle.1 hw
    | delivery d =>
      rcases hattended with hmem | hsender | ⟨a, rest, hmem, ha⟩
      · exact .inl hmem
      · refine .inr (.inl (htail hsender ?_))
        rintro rfl
        exact hidle hw
      · refine .inr (.inr ⟨a, rest, hmem, htail ha ?_⟩)
        rintro rfl
        exact hidle.2 _ rest hmem hw

/-! ## Handing sends over -/

/-- A consumer hands its send over to somebody outside. -/
theorem release (h : n.Live γ A) {a : Address} {t : Ticket} {rest : κ}
    (hmem : (a, .sending t rest) ∈ n.pending) : (n.setPending a none).Live γ (t :: A) where
  fits := h.fits
  channel?_eq := h.channel?_eq
  smooth := h.smooth
  woken := h.woken
  staffed := h.staffed
  orderly := orderly_setPending h.orderly a none
  pending b p hp := h.pending (mem_setPending_none.1 hp).1
  owner b b' t rest rest' hb hb' :=
    h.owner (mem_setPending_none.1 hb).1 (mem_setPending_none.1 hb').1
  sender t ht := (h.sender ht).setPending_none a
  outside t' ht' := by
    rcases List.mem_cons.1 ht' with rfl | ht'
    · obtain ⟨_, _, hp, -, -, hunderWay⟩ := h.pending hmem
      cases hp
      refine ⟨hunderWay.1, fun b rest' hb => ?_⟩
      obtain ⟨hb, hne⟩ := mem_setPending_none.1 hb
      exact hne (h.owner hb hmem)
    · exact (h.outside t' ht').setPending_none a
  awaited t ht := List.mem_cons_of_mem _ (h.awaited t ht)
  attended topic w hw := by
    have hattended := h.attended hw
    cases w with
    | consumer i => exact hattended
    | delivery d =>
      rcases hattended with hA | hsender | ⟨b, rest', hb, hready⟩
      · exact .inl (List.mem_cons_of_mem _ hA)
      · exact .inr (.inl hsender)
      · by_cases hba : b = a
        · -- the send of this consumer is the one handed over
          subst hba
          cases h.orderly.eq_of_mem hmem hb
          exact .inl List.mem_cons_self
        · exact .inr (.inr ⟨b, rest', mem_setPending_none.2 ⟨hb, hba⟩, hready⟩)

/-- A consumer waits for a send that somebody outside hands over to it. -/
theorem keep {t : Ticket} (h : n.Live γ (t :: A)) {a : Address} {rest : κ}
    (hnone : ∀ p, (a, p) ∉ n.pending) (hready : .consumer a ∈ n.ready)
    (hrank : γ.rank t.topic < γ.rank a.topic) (hleft : γ.left a.topic rest)
    (hunderWay : (n.channelAt t.topic).IsUnderWay t.delivery) (hA : t ∉ A)
    (hsender : .sender t ∉ n.ready) (hawaited : t ∉ n.awaited) :
    (n.setPending a (some (.sending t rest))).Live γ A where
  fits := h.fits
  channel?_eq := h.channel?_eq
  smooth := h.smooth
  woken := h.woken
  staffed := h.staffed
  orderly := orderly_setPending h.orderly a _
  pending b p hp := by
    rcases mem_setPending_some.1 hp with ⟨rfl, rfl⟩ | ⟨hold, -⟩
    · exact ⟨t, rest, rfl, hrank, hleft, hunderWay⟩
    · exact h.pending hold
  owner := by
    -- before, no consumer waited for the send, so only this one does
    have hloose := (h.outside t List.mem_cons_self).2
    intro b b' t' rest' rest'' hb hb'
    rcases mem_setPending_some.1 hb with ⟨rfl, hp⟩ | ⟨hb, -⟩
    · cases hp
      rcases mem_setPending_some.1 hb' with ⟨rfl, -⟩ | ⟨hb', -⟩
      · rfl
      · exact absurd hb' (hloose b' rest'')
    · rcases mem_setPending_some.1 hb' with ⟨rfl, hp⟩ | ⟨hb', -⟩
      · cases hp
        exact absurd ‹_› (hloose b rest')
      · exact h.owner hb hb'
  sender t' ht' := by
    refine (h.sender ht').setPending_some ?_ a rest
    rintro rfl
    exact hsender ht'
  outside t' ht' := by
    refine (h.outside t' (List.mem_cons_of_mem _ ht')).setPending_some ?_ a rest
    rintro rfl
    exact hA ht'
  awaited t' ht' := by
    refine (List.mem_cons.1 (h.awaited t' ht')).resolve_left ?_
    rintro rfl
    exact hawaited ht'
  attended topic w hw := by
    have hattended := h.attended hw
    cases w with
    | consumer i => exact hattended
    | delivery d =>
      rcases hattended with hA | hsender | ⟨b, rest', hb, hb'⟩
      -- the consumer attends to the send now, in place of somebody outside
      · rcases List.mem_cons.1 hA with rfl | hA
        · exact .inr (.inr ⟨a, rest, mem_setPending_some.2 (.inl ⟨rfl, rfl⟩), hready⟩)
        · exact .inl hA
      · exact .inr (.inl hsender)
      · refine .inr (.inr ⟨b, rest', mem_setPending_some.2 (.inr ⟨hb, ?_⟩), hb'⟩)
        rintro rfl
        exact hnone _ hb

/-- A send from outside goes on in the background. -/
theorem leave {t : Ticket} (h : n.Live γ (t :: A)) (hawaited : ∀ t ∈ n.awaited, t ∈ A) :
    (n.enqueue (.sender t)).Live γ A := by
  have hgrown : ∀ {b}, b ∈ n.ready → b ∈ (n.enqueue (.sender t)).ready := fun hb =>
    mem_ready_enqueue.2 (.inl hb)
  have hready : .sender t ∈ (n.enqueue (.sender t)).ready := mem_ready_enqueue.2 (.inr rfl)
  have hsender : ∀ {t'}, .sender t' ∈ (n.enqueue (.sender t)).ready → n.Loose t' := by
    intro t' ht'
    rcases mem_ready_enqueue.1 ht' with hold | hnew
    · exact h.sender hold
    · cases hnew
      exact h.outside t List.mem_cons_self
  rw [enqueue_eq] at hgrown hready hsender ⊢
  refine ⟨h.fits, h.channel?_eq, h.smooth, h.woken, h.staffed, h.orderly, h.pending, h.owner,
    fun t' ht' => hsender ht', fun t' ht' => h.outside t' (List.mem_cons_of_mem _ ht'), hawaited,
    fun topic w hw => ?_⟩
  have hattended := h.attended hw
  cases w with
  | consumer i => exact hgrown hattended
  | delivery d =>
    rcases hattended with hA | hsender | ⟨a, rest, hmem, ha⟩
    · rcases List.mem_cons.1 hA with rfl | hA
      · exact .inr (.inl hready)
      · exact .inl hA
    · exact .inr (.inl (hgrown hsender))
    · exact .inr (.inr ⟨a, rest, hmem, hgrown ha⟩)

/-- Nobody outside has to carry on sends that can do nothing any more. -/
theorem drop (h : n.Live γ A) {A' : List Ticket} (hA : A' ⊆ A) (hawaited : ∀ t ∈ n.awaited, t ∈ A')
    (hidle : ∀ t ∈ A, t ∈ A' ∨ ¬(n.channelAt t.topic).Due (.delivery t.delivery)) :
    n.Live γ A' where
  fits := h.fits
  channel?_eq := h.channel?_eq
  smooth := h.smooth
  woken := h.woken
  staffed := h.staffed
  orderly := h.orderly
  pending := h.pending
  owner := h.owner
  sender := h.sender
  outside t ht := h.outside t (hA ht)
  awaited := hawaited
  attended topic w hw := by
    have hattended := h.attended hw
    cases w with
    | consumer i => exact hattended
    | delivery d =>
      rcases hattended with hmem | hrest
      · exact .inl ((hidle _ hmem).resolve_right fun hnot => hnot hw)
      · exact .inr hrest

end Live

variable {γ : Cascade ℓ σ κ} {A : List Ticket} {n : Network ℓ π σ κ}

/-! ## Who is in the midst of a message -/

section Engaged

variable {busy : Option Address} {a : Address} {c : Channel ℓ π}

/-- Who is in the midst of a message does not depend on a channel that is put back with the same
messages in hand. -/
theorem Engaged.put (hn : n.Engaged busy) {topic : Topic}
    (hholds : ∀ j, c.holds j = (n.channelAt topic).holds j) : (n.put topic c).Engaged busy := by
  intro b
  rw [pending_put, ← hn b, channelAt_put]
  split
  · next htopic =>
    rw [htopic, ← hholds]
    rfl
  · rfl

/-- A consumer begins with a message. -/
theorem Engaged.take (hn : n.Engaged none)
    (hholds : ∀ j, c.holds j = ((n.channelAt a.topic).holds j || j == a.consumer)) :
    (n.put a.topic c).Engaged (some a) := by
  intro b
  have hbusy := hn b
  rw [pending_put, channelAt_put]
  split
  · next htopic =>
    show c.holds b.consumer = true ↔ _
    rw [hholds, ← htopic, Bool.or_eq_true, hbusy, beq_iff_eq]
    have hsame : b.consumer = a.consumer ↔ some a = some b := by
      obtain ⟨topic, i⟩ := a
      obtain ⟨topic', j⟩ := b
      obtain rfl : topic' = topic := htopic
      simp [eq_comm]
    simp [hsame]
  · next htopic =>
    rw [hbusy]
    have hne : a ≠ b := fun hab => htopic (by rw [hab])
    simp [hne]

/-- A consumer ends with its message. -/
theorem Engaged.finish (hn : n.Engaged (some a)) (hnone : ∀ p, (a, p) ∉ n.pending)
    (hholds : ∀ j, c.holds j = ((n.channelAt a.topic).holds j && j != a.consumer)) :
    (n.put a.topic c).Engaged none := by
  intro b
  have hbusy := hn b
  rw [pending_put, channelAt_put]
  split
  · next htopic =>
    show c.holds b.consumer = true ↔ _
    rw [hholds, ← htopic, Bool.and_eq_true, hbusy, bne_iff_ne]
    by_cases hab : a = b
    · subst hab
      simp [hnone]
    · have hne : b.consumer ≠ a.consumer := by
        intro hconsumer
        obtain ⟨topic, i⟩ := a
        obtain ⟨topic', j⟩ := b
        exact hab (by rw [show topic' = topic from htopic, show j = i from hconsumer])
      simp [hne, hab]
  · next htopic =>
    have hne : a ≠ b := fun hab => htopic (by rw [hab])
    simpa [hne] using hbusy

/-- A consumer goes on with its message. -/
theorem Engaged.release (hn : n.Engaged none) {p : Pending κ} (hmem : (a, p) ∈ n.pending) :
    (n.setPending a none).Engaged (some a) := by
  intro b
  show (n.channelAt b.topic).holds b.consumer = true ↔ _
  rw [hn b]
  by_cases hab : b = a
  · subst hab
    exact ⟨fun _ => .inr rfl, fun _ => .inl ⟨p, hmem⟩⟩
  · simp [mem_setPending_none, hab, Ne.symm hab]

/-- A consumer waits in the midst of its message. -/
theorem Engaged.keep (hn : n.Engaged (some a)) (p : Pending κ) :
    (n.setPending a (some p)).Engaged none := by
  intro b
  show (n.channelAt b.topic).holds b.consumer = true ↔ _
  rw [hn b]
  by_cases hab : b = a
  · subst hab
    simp [mem_setPending_some]
  · simp [mem_setPending_some, hab, Ne.symm hab]

end Engaged

/-- Nobody who can go on is forgotten, and exactly those handle a message who are in the midst of
one. -/
structure Flows (γ : Cascade ℓ σ κ) (A : List Ticket) (n : Network ℓ π σ κ) : Prop
    extends n.Live γ A where
  engaged : n.Engaged none

end Network

end MarketEngine
