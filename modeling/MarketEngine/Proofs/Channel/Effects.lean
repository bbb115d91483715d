import MarketEngine.Proofs.Channel.Story
/-!
# What dealings come to

What every consumer keeps to in whatever it does, the shared state keeps to however long the network
runs, and through all that is done from outside within the same bounds (`Network.Leads.shared`). So
does whatever a consumer finds when it sets to work (`Story.keepTo_run`).

A channel on which no consumer sends has on record what was posted on it from outside, and nothing
else (`Network.Leads.carries`).
-/

namespace MarketEngine

variable {ℓ π σ κ : Type}

/-! ## The shared state -/

/-- A way for the shared state to change, to which every consumer keeps in whatever it does. -/
structure Handlers.KeepTo (h : Handlers ℓ π σ κ) (R : σ → σ → Prop) : Prop where
  refl : ∀ s, R s s
  trans : ∀ {s s' s''}, R s s' → R s' s'' → R s s''
  start : ∀ label m s, R s (h.start label m s).2
  resume : ∀ rest s, R s (h.resume rest s).2

namespace Network

/-- Who goes on leaves the shared state as the step says. -/
theorem shared_proceed (n : Network ℓ π σ κ) (a : Address) (next : Next π κ × σ) :
    (n.proceed a next).shared = next.2 := by
  obtain ⟨next, shared⟩ := next
  cases next with
  | done failure => exact (calm_modify (setPending { n with shared } a none) _ _).shared_eq
  | send topic message rest => exact (still_send { n with shared } topic message).shared_eq
  | wait rest => rfl

section KeepTo

variable {h : Handlers ℓ π σ κ} {R : σ → σ → Prop} (hR : h.KeepTo R)
include hR

/-- Whatever moves are made, the shared state changes in the way that the consumers keep to. -/
theorem stable_keepTo (s : σ) : Stable h fun n => R s n.shared where
  line hn _ _ := hn
  advance {n} hn t := by
    rw [(still_advance n t).shared_eq]
    exact hn
  takeNext {n} {a} _ hn := by
    unfold takeNext
    split
    · exact hn
    · next c hc =>
      have hput : ∀ c : Channel ℓ π, R s (n.put a.topic c).shared := fun c => by
        rw [(calm_put n a.topic c).shared_eq]
        exact hn
      split
      · rw [shared_proceed]
        exact hR.trans hn (hR.start _ _ _)
      · exact hput _
  goOn hp hn := by
    rw [shared_proceed]
    exact hR.trans hn (hR.resume _ _)

/-- Somebody outside goes through with a message. -/
theorem keepTo_handle (sends : Nat) {s : σ} {n : Network ℓ π σ κ} {next : Next π κ × σ}
    (hnext : R s next.2) : R s (n.handle h sends next).1.shared := by
  induction sends generalizing n next with
  | zero =>
    obtain ⟨next, shared⟩ := next
    cases next <;> exact hnext
  | succ sends ih =>
    obtain ⟨next, shared⟩ := next
    cases next with
    | done failure => exact hnext
    | wait rest => exact hnext
    | send topic m rest =>
      have hsent : R s (Network.send { n with shared } topic m).1.shared := by
        rw [(still_send { n with shared } topic m).shared_eq]
        exact hnext
      exact ih (hR.trans ((stable_keepTo hR s).await hsent _) (hR.resume _ _))

/-- Whatever is done with a network, as long as those outside keep to it as well. -/
theorem Leads.shared {D : Dealings ℓ σ} (hD : ∀ s s', D.changes s s' → R s s')
    {posts : List (Topic × Message π)} {calls : List (ℓ × Message π)} {n n' : Network ℓ π σ κ}
    (hleads : Leads h D posts calls n n') : R n.shared n'.shared := by
  induction hleads with
  | refl n => exact hR.refl _
  | trans _ _ ih ih' => exact hR.trans ih ih'
  | moves hmoves => exact hmoves (stable_keepTo hR _) (hR.refl _)
  | subscribe n topic _ s =>
    rw [Network.subscribe, (calm_modify n topic _).shared_eq]
    exact hR.refl _
  | change n hf => exact hD _ _ (hf _)
  | send n topic m =>
    rw [(still_send n topic m).shared_eq]
    exact hR.refl _
  | handle sends n _ m _ => exact keepTo_handle hR sends (hR.start _ m _)

end KeepTo

end Network

namespace Story

variable {h : Handlers ℓ π σ κ} {R : σ → σ → Prop} (hR : h.KeepTo R) {D : Dealings ℓ σ}
  (hD : ∀ s s', D.changes s s' → R s s')
include hR hD

/-- One more occurrence changes the shared state in the way that everybody keeps to. -/
theorem keepTo_step {s : σ} {r : Story ℓ π σ κ}
    (hr : R s r.shared ∧ ∀ d ∈ r.deeds, R s d.found) {o : Occurrence ℓ π σ} (ho : o.Within D) :
    R s (r.step h o).shared ∧ ∀ d ∈ (r.step h o).deeds, R s d.found := by
  have hperform : ∀ others act, R s (r.perform h others act).shared ∧
      ∀ d ∈ (r.perform h others act).deeds, R s d.found := by
    intro others act
    refine ⟨hR.trans hr.1 ?_, List.forall_mem_append.2 ⟨hr.2, ?_⟩⟩
    · cases act with
      | begin a label m => exact hR.start label m _
      | goOn rest => exact hR.resume rest _
    · exact List.forall_mem_singleton.2 hr.1
  cases o with
  | begin a label m => exact hperform _ _
  | goOn place =>
    simp only [step]
    split
    · exact hr
    · exact hperform _ _
  | post topic m => exact hr
  | change f => exact ⟨hR.trans hr.1 (hD _ _ (ho _)), hr.2⟩

/-- What a story comes to, and what everybody finds in it. -/
theorem keepTo_run {s : σ} {r : Story ℓ π σ κ} (hr : R s r.shared ∧ ∀ d ∈ r.deeds, R s d.found)
    {all : List (Occurrence ℓ π σ)} (hall : ∀ o ∈ all, o.Within D) :
    R s (r.run h all).shared ∧ ∀ d ∈ (r.run h all).deeds, R s d.found := by
  induction all generalizing r with
  | nil => exact hr
  | cons o rest ih =>
    rw [List.forall_mem_cons] at hall
    exact ih (keepTo_step hR hD hr hall.1) hall.2

end Story

namespace Network

/-! ## The messages of a channel -/

/-- The channel of the topic has these messages on record. -/
def Carries (n : Network ℓ π σ κ) (topic : Topic) (ms : List (Message π)) : Prop :=
  ∃ c, n.channel? topic = some c ∧ c.messages = ms

section Carries

variable {n : Network ℓ π σ κ} {topic : Topic} {ms : List (Message π)}

/-- Where the channels are the same they have the same on record. -/
theorem Carries.of_eq {n' : Network ℓ π σ κ} (h : n.Carries topic ms)
    (hchannels : n'.channels = n.channels) : n'.Carries topic ms := by
  unfold Carries channel? at h ⊢
  rwa [hchannels]

/-- A channel that is put back without a new message has the same on record. -/
theorem Carries.put (h : n.Carries topic ms) {topic' : Topic} {c c' : Channel ℓ π}
    (hc : n.channel? topic' = some c) (hmessages : c'.messages = c.messages) :
    (n.put topic' c').Carries topic ms := by
  obtain ⟨c₀, hc₀, rfl⟩ := h
  rw [Carries, channel?_put]
  by_cases htopic : topic = topic'
  · subst htopic
    obtain rfl := Option.some.inj (hc₀.symm.trans hc)
    exact ⟨{ c' with woken := [] }, by simp, hmessages⟩
  · exact ⟨c₀, by simp [htopic, hc₀], rfl⟩

/-- A channel that is changed without a new message has the same on record. -/
theorem Carries.modify (h : n.Carries topic ms) (topic' : Topic)
    {f : Channel ℓ π → Channel ℓ π} (hf : ∀ c, (f c).messages = c.messages) :
    (n.modify topic' f).Carries topic ms := by
  unfold Network.modify
  split
  · next c hc => exact h.put hc (hf c)
  · exact h

/-- A message that is sent comes last on the record of its own channel. -/
theorem Carries.send (h : n.Carries topic ms) (topic' : Topic) (m : Message π) :
    (n.send topic' m).1.Carries topic (ms ++ if topic' = topic then [m] else []) := by
  obtain ⟨c, hc, rfl⟩ := h
  unfold Network.send
  cases hc' : n.channel? topic' with
  | none =>
    have hne : topic' ≠ topic := by
      rintro rfl
      simp [hc] at hc'
    exact ⟨c, hc, by simp [hne]⟩
  | some c' =>
    show (n.put topic' (c'.send m).1).Carries topic _
    rw [Carries, channel?_put]
    by_cases htopic : topic' = topic
    · subst htopic
      obtain rfl := Option.some.inj (hc.symm.trans hc')
      refine ⟨{ (c.send m).1 with woken := [] }, by simp, ?_⟩
      rw [if_pos rfl]
      exact (c.recorded_send m).1
    · exact ⟨c, by simp [Ne.symm htopic, hc], by simp [htopic]⟩

/-- A send that goes on was on record since it started. -/
theorem Carries.advance (h : n.Carries topic ms) (t : Ticket) :
    (n.advance t).1.Carries topic ms := by
  unfold Network.advance
  split
  · next c hc => exact h.put hc (c.silent_advance t.delivery).messages_eq
  · exact h

/-- A consumer goes on, and what it sends concerns other topics. -/
theorem Carries.proceed (h : n.Carries topic ms) (a : Address) {next : Next π κ × σ}
    (hsends : ∀ p ∈ next.1.sends, p.1 ≠ topic) : (n.proceed a next).Carries topic ms := by
  obtain ⟨next, shared⟩ := next
  have hshown : ({ n with shared } : Network ℓ π σ κ).Carries topic ms := h.of_eq rfl
  cases next with
  | done failure =>
    have hset : (Network.setPending { n with shared } a none).Carries topic ms := h.of_eq rfl
    exact hset.modify a.topic fun c => (c.silent_finish a.consumer).messages_eq
  | send topic' m rest =>
    have hne : topic' ≠ topic := hsends (topic', m) List.mem_cons_self
    have hsent := hshown.send topic' m
    rw [if_neg hne, List.append_nil] at hsent
    exact hsent.of_eq rfl
  | wait rest => exact h.of_eq rfl

end Carries

end Network

/-- No consumer sends on the topic. -/
structure Handlers.SilentOn (h : Handlers ℓ π σ κ) (topic : Topic) : Prop where
  start : ∀ label m s, ∀ p ∈ (h.start label m s).1.sends, p.1 ≠ topic
  resume : ∀ rest s, ∀ p ∈ (h.resume rest s).1.sends, p.1 ≠ topic

namespace Network

variable {h : Handlers ℓ π σ κ} {topic : Topic} (hsilent : h.SilentOn topic)
include hsilent

/-- Whatever the consumers do, the record of a channel that none of them sends on stays. -/
theorem stable_carries (ms : List (Message π)) : Stable h fun n => n.Carries topic ms where
  line hn _ _ := hn.of_eq rfl
  advance hn t := hn.advance t
  takeNext {n} {a} _ hn := by
    unfold takeNext
    split
    · exact hn.of_eq rfl
    · next c hc =>
      have htaken : (c.take a.consumer).1.messages = c.messages := by
        rcases c.take_cases a.consumer with ⟨-, hsame⟩ | ⟨m, k, -, -, hmessages, -⟩
        · exact hsame.messages_eq
        · exact hmessages
      have hput := hn.put hc htaken
      split
      · next heq _ =>
        rw [heq] at hput
        exact hput.proceed a (hsilent.start _ _ _)
      · next heq _ =>
        rw [heq] at hput
        exact hput.of_eq rfl
  goOn _ hn := hn.proceed _ (hsilent.resume _ _)

/-- Something that is handled from outside leaves the record alone if it sends nothing on the topic.
-/
theorem carries_handle (sends : Nat) {n : Network ℓ π σ κ} {next : Next π κ × σ}
    (hnext : ∀ p ∈ next.1.sends, p.1 ≠ topic) {ms : List (Message π)} (hn : n.Carries topic ms) :
    (n.handle h sends next).1.Carries topic ms := by
  induction sends generalizing n next with
  | zero =>
    obtain ⟨next, shared⟩ := next
    cases next <;> exact hn.of_eq rfl
  | succ sends ih =>
    obtain ⟨next, shared⟩ := next
    cases next with
    | done failure => exact hn.of_eq rfl
    | wait rest => exact hn.of_eq rfl
    | send topic' m rest =>
      have hshown : ({ n with shared } : Network ℓ π σ κ).Carries topic ms := hn.of_eq rfl
      have hsent := hshown.send topic' m
      rw [if_neg (hnext (topic', m) List.mem_cons_self), List.append_nil] at hsent
      exact ih (hsilent.resume _ _) ((stable_carries hsilent ms).await hsent _)

/-- Whatever is done with a network, a channel on which no consumer sends carries what is posted on
it. -/
theorem Leads.carries {D : Dealings ℓ σ} {posts : List (Topic × Message π)}
    {calls : List (ℓ × Message π)} {n n' : Network ℓ π σ κ} (hleads : Leads h D posts calls n n')
    {ms : List (Message π)} (hn : n.Carries topic ms) :
    n'.Carries topic (ms ++ (posts.filter (·.1 = topic)).map (·.2)) := by
  induction hleads generalizing ms with
  | refl n => simpa using hn
  | trans _ _ ih ih' => simpa using ih' (ih hn)
  | moves hmoves => simpa using hmoves (stable_carries hsilent ms) hn
  | subscribe n topic' _ s =>
    rw [List.filter_nil, List.map_nil, List.append_nil]
    exact hn.modify topic' fun c => (c.silent_subscribe _ s).messages_eq
  | change n hf =>
    rw [List.filter_nil, List.map_nil, List.append_nil]
    exact hn.of_eq rfl
  | send n topic' m =>
    have hsent := hn.send topic' m
    by_cases htopic : topic' = topic <;> simpa [htopic] using hsent
  | handle sends n _ m _ => simpa using carries_handle hsilent sends (hsilent.start _ m _) hn

end Network

end MarketEngine
