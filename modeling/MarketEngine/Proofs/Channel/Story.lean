import MarketEngine.Proofs.Channel.Dealings
import MarketEngine.Proofs.Channel.Records
/-!
# The story of a network

Channels decide when a message is handled and who waits for whom; what is handled, and what comes of
it, can be told without them. A story is a list of occurrences (`Occurrence`): somebody begins with
a message or goes on with one, a message is posted from outside, or the shared state changes. It has
the shared state, what is under way, who did what, and the messages that were sent.

Every network tells a story (`Story.Tells`): its channels have on record the messages that were
sent and what each consumer began with. Whatever the network does goes on with it
(`Story.stable_reaches`), and so does whatever is done with it from outside
(`Story.Tells.continues`).
-/

namespace MarketEngine

variable {ℓ π σ κ : Type}

/-- What somebody does: a consumer, or somebody outside, begins with a message, or goes on. -/
inductive Act (ℓ π κ : Type) where
  | begin (a : Option Address) (label : ℓ) (m : Message π)
  | goOn (rest : κ)

/-- What was left to do of a message until the act. -/
def Act.rest? : Act ℓ π κ → Option κ
  | .begin .. => none
  | .goOn rest => some rest

/-- What comes of an act. -/
def Act.outcome (h : Handlers ℓ π σ κ) (s : σ) : Act ℓ π κ → Next π κ × σ
  | .begin _ label m => h.start label m s
  | .goOn rest => h.resume rest s

/-- An act with the shared state that it found. -/
structure Deed (ℓ π σ κ : Type) where
  found : σ
  act : Act ℓ π κ

/-- As whom this consumer began with which message, if the deed is that. -/
def Deed.begunAt? (a : Address) (d : Deed ℓ π σ κ) : Option (ℓ × Message π) :=
  match d.act with
  | .begin (some a') label m => if a' = a then some (label, m) else none
  | _ => none

/-- What can happen in a network. -/
inductive Occurrence (ℓ π σ : Type) where
  /-- A consumer, or somebody outside, begins with a message. -/
  | begin (a : Option Address) (label : ℓ) (m : Message π)
  /-- Somebody goes on with what is left to do of a message. -/
  | goOn (place : Nat)
  /-- A message is posted from outside. -/
  | post (topic : Topic) (m : Message π)
  | change (f : σ → σ)

namespace Occurrence

/-- The message that is posted, if one is. -/
def post? : Occurrence ℓ π σ → Option (Topic × Message π)
  | .post topic m => some (topic, m)
  | _ => none

/-- As whom somebody outside begins with which message, if somebody does. -/
def call? : Occurrence ℓ π σ → Option (ℓ × Message π)
  | .begin none label m => some (label, m)
  | _ => none

/-- What somebody outside does is within these bounds. -/
def Within (D : Dealings ℓ σ) : Occurrence ℓ π σ → Prop
  | .begin none label _ => D.handles label
  | .change f => ∀ s, D.changes s (f s)
  | _ => True

/-- A consumer begins with a message, or somebody goes on. -/
def IsAct : Occurrence ℓ π σ → Prop
  | .begin (some _) .. => True
  | .goOn _ => True
  | _ => False

/-- What consumers do is within any bounds on somebody outside. -/
theorem IsAct.within {o : Occurrence ℓ π σ} (h : o.IsAct) (D : Dealings ℓ σ) : o.Within D := by
  unfold IsAct at h
  split at h <;> trivial

/-- An act posts nothing from outside. -/
theorem IsAct.post?_eq {o : Occurrence ℓ π σ} (h : o.IsAct) : o.post? = none := by
  unfold IsAct at h
  split at h
  · rfl
  · rfl
  · exact h.elim

/-- An act is no call from outside. -/
theorem IsAct.call?_eq {o : Occurrence ℓ π σ} (h : o.IsAct) : o.call? = none := by
  unfold IsAct at h
  split at h
  · rfl
  · rfl
  · exact h.elim

end Occurrence

/-- What was told up to a moment. -/
structure Story (ℓ π σ κ : Type) where
  shared : σ
  /-- What is left to do of the messages that somebody is in the midst of. -/
  underWay : List κ := []
  /-- What was done, in order. -/
  deeds : List (Deed ℓ π σ κ) := []
  /-- The messages that were sent, in order. -/
  sent : List (Topic × Message π) := []

namespace Story

variable {h : Handlers ℓ π σ κ}

/-- Somebody does something, while this is left to do for the others. -/
def perform (h : Handlers ℓ π σ κ) (r : Story ℓ π σ κ) (others : List κ) (act : Act ℓ π κ) :
    Story ℓ π σ κ :=
  let outcome := act.outcome h r.shared
  { shared := outcome.2
    underWay := others ++ outcome.1.rests
    deeds := r.deeds ++ [⟨r.shared, act⟩]
    sent := r.sent ++ outcome.1.sends }

def step (h : Handlers ℓ π σ κ) (r : Story ℓ π σ κ) : Occurrence ℓ π σ → Story ℓ π σ κ
  | .begin a label m => r.perform h r.underWay (.begin a label m)
  | .goOn place =>
    match r.underWay[place]? with
    | none => r
    | some rest => r.perform h (r.underWay.eraseIdx place) (.goOn rest)
  | .post topic m => { r with sent := r.sent ++ [(topic, m)] }
  | .change f => { r with shared := f r.shared }

def run (h : Handlers ℓ π σ κ) (r : Story ℓ π σ κ) (all : List (Occurrence ℓ π σ)) :
    Story ℓ π σ κ :=
  all.foldl (step h) r

/-- A story that goes on is told in one piece or in two. -/
theorem run_append (r : Story ℓ π σ κ) (first more : List (Occurrence ℓ π σ)) :
    r.run h (first ++ more) = (r.run h first).run h more := List.foldl_append

/-- The messages that were sent on a topic, in order. -/
def sentOn (r : Story ℓ π σ κ) (topic : Topic) : List (Message π) :=
  (r.sent.filter (·.1 = topic)).map (·.2)

/-- What was sent more is added on its own topic. -/
theorem sentOn_eq {r r' : Story ℓ π σ κ} {sends : List (Topic × Message π)}
    (h : r'.sent = r.sent ++ sends) (topic : Topic) :
    r'.sentOn topic = r.sentOn topic ++ (sends.filter (·.1 = topic)).map (·.2) := by
  rw [sentOn, h, List.filter_append, List.map_append, sentOn]

/-- What a consumer began with, and as whom. -/
def begunAt (r : Story ℓ π σ κ) (a : Address) : List (ℓ × Message π) :=
  r.deeds.filterMap (Deed.begunAt? a)

/-! ## The network that a story tells -/

/-- The channels have on record what was sent and who began with what. -/
def Fills (r : Story ℓ π σ κ) (n : Network ℓ π σ κ) : Prop :=
  ∀ topic, ∃ c, n.channel? topic = some c ∧ c.messages = r.sentOn topic ∧
    ∀ i, c.begunBy i = r.begunAt ⟨topic, i⟩

/-- The network is where the story has come to, with this left to do for somebody outside. -/
structure Tells (r : Story ℓ π σ κ) (outside : List κ) (n : Network ℓ π σ κ) : Prop where
  shared_eq : n.shared = r.shared
  perm : (outside ++ n.rests).Perm r.underWay
  orderly : n.Orderly
  fills : r.Fills n

section Fills

variable {r : Story ℓ π σ κ} {n : Network ℓ π σ κ}

/-- Where the channels are the same they have the same on record. -/
theorem Fills.of_eq {n' : Network ℓ π σ κ} (h : r.Fills n) (hchannels : n'.channels = n.channels) :
    r.Fills n' := by
  intro topic
  rw [Network.channel?, hchannels]
  exact h topic

/-- Where nothing was sent and nobody did anything there is no more to record. -/
theorem Fills.congr {r' : Story ℓ π σ κ} (h : r.Fills n) (hsent : r'.sent = r.sent)
    (hdeeds : r'.deeds = r.deeds) : r'.Fills n := by
  intro topic
  rw [sentOn, hsent]
  simp only [begunAt, hdeeds]
  exact h topic

/-- A channel is put back with what the story has of it then. -/
theorem Fills.put {r' : Story ℓ π σ κ} (h : r.Fills n) (topic : Topic) {c' : Channel ℓ π}
    (hmessages : c'.messages = r'.sentOn topic)
    (hbegun : ∀ i, c'.begunBy i = r'.begunAt ⟨topic, i⟩)
    (hothers : ∀ topic', topic' ≠ topic → r'.sentOn topic' = r.sentOn topic' ∧
      ∀ i, r'.begunAt ⟨topic', i⟩ = r.begunAt ⟨topic', i⟩) : r'.Fills (n.put topic c') := by
  intro topic'
  rw [Network.channel?_put]
  by_cases htopic : topic' = topic
  · subst htopic
    exact ⟨{ c' with woken := [] }, by simp, hmessages, hbegun⟩
  · obtain ⟨c, hc, hmessages, hbegun⟩ := h topic'
    obtain ⟨hsent, hsame⟩ := hothers topic' htopic
    exact ⟨c, by simp [htopic, hc], hmessages.trans hsent.symm,
      fun i => (hbegun i).trans (hsame i).symm⟩

/-- A channel may change as long as it records nothing new. -/
theorem Fills.silent (h : r.Fills n) {topic : Topic} {c c' : Channel ℓ π}
    (hc : n.channel? topic = some c) (hsilent : c.Silent c') : r.Fills (n.put topic c') := by
  obtain ⟨c'', hc'', hmessages, hbegun⟩ := h topic
  obtain rfl := Option.some.inj (hc''.symm.trans hc)
  refine h.put topic (hsilent.messages_eq.trans hmessages) (fun i => ?_)
    fun _ _ => ⟨rfl, fun _ => rfl⟩
  rw [hsilent.begunBy_eq]
  exact hbegun i

/-- A channel may be changed as long as it records nothing new. -/
theorem Fills.modify (h : r.Fills n) (topic : Topic) {f : Channel ℓ π → Channel ℓ π}
    (hf : ∀ c : Channel ℓ π, c.Silent (f c)) : r.Fills (n.modify topic f) := by
  unfold Network.modify
  split
  · next c hc => exact h.silent hc (hf c)
  · exact h

/-- A message that is sent is recorded by its channel. -/
theorem Fills.send {r' : Story ℓ π σ κ} (h : r.Fills n) (topic : Topic) (m : Message π)
    (hsent : r'.sent = r.sent ++ [(topic, m)]) (hdeeds : r'.deeds = r.deeds) :
    r'.Fills (n.send topic m).1 := by
  obtain ⟨c, hc, hmessages, hbegun⟩ := h topic
  obtain ⟨hmessages', hbegun'⟩ := c.recorded_send m
  rw [Network.send, hc]
  refine h.put topic ?_ (fun i => ?_) fun topic' htopic => ⟨?_, fun i => ?_⟩
  · rw [hmessages', hmessages, sentOn_eq hsent]
    simp
  · rw [hbegun', hbegun, begunAt, begunAt, hdeeds]
  · rw [sentOn_eq hsent]
    simp [Ne.symm htopic]
  · rw [begunAt, begunAt, hdeeds]

/-- A message that a consumer begins with is recorded for that consumer only. -/
theorem Fills.begun {r' : Story ℓ π σ κ} (h : r.Fills n) {a : Address} {c : Channel ℓ π}
    (hc : n.channel? a.topic = some c) {c' : Channel ℓ π} {label : ℓ} {m : Message π} {found : σ}
    (hmessages' : c'.messages = c.messages)
    (hbegun' : ∀ i, c'.begunBy i = c.begunBy i ++ if i = a.consumer then [(label, m)] else [])
    (hsent : r'.sent = r.sent) (hdeeds : r'.deeds = r.deeds ++ [⟨found, .begin (some a) label m⟩]) :
    r'.Fills (n.put a.topic c') := by
  obtain ⟨c'', hc'', hmessages, hbegun⟩ := h a.topic
  obtain rfl := Option.some.inj (hc''.symm.trans hc)
  have hat : ∀ a', r'.begunAt a' = r.begunAt a' ++ if a' = a then [(label, m)] else [] := by
    intro a'
    rw [begunAt, hdeeds, List.filterMap_append, ← begunAt]
    by_cases ha : a' = a
    · simp [Deed.begunAt?, ha]
    · simp [Deed.begunAt?, ha, Ne.symm ha]
  obtain ⟨topic, consumer⟩ := a
  refine h.put topic ?_ (fun i => ?_) fun topic' htopic => ⟨?_, fun i => ?_⟩
  · rw [hmessages', hmessages, sentOn, sentOn, hsent]
  · rw [hbegun', hbegun, hat]
    simp
  · rw [sentOn, sentOn, hsent]
  · rw [hat]
    simp [htopic]

end Fills

/-- Some acts bring the story to where the network is. -/
def Reaches (h : Handlers ℓ π σ κ) (r : Story ℓ π σ κ) (outside : List κ)
    (n : Network ℓ π σ κ) : Prop :=
  ∃ more : List (Occurrence ℓ π σ), (∀ o ∈ more, o.IsAct) ∧ (r.run h more).Tells outside n

section Tells

variable {r : Story ℓ π σ κ} {outside : List κ} {n : Network ℓ π σ κ}

/-- Who is to go on next is not part of the story. -/
theorem Tells.line (hr : r.Tells outside n) (ready : List Actor) (awaited : List Ticket) :
    r.Tells outside { n with ready, awaited } :=
  ⟨hr.shared_eq, hr.perm, hr.orderly, hr.fills.of_eq rfl⟩

/-- A change of a channel that records nothing new is not part of the story. -/
theorem Tells.silent (hr : r.Tells outside n) {topic : Topic} {c c' : Channel ℓ π}
    (hc : n.channel? topic = some c) (hsilent : c.Silent c') :
    r.Tells outside (n.put topic c') := by
  have hcalm := Network.calm_put n topic c'
  refine ⟨hcalm.shared_eq.trans hr.shared_eq, ?_, hcalm.orderly hr.orderly,
    hr.fills.silent hc hsilent⟩
  rw [hcalm.rests_eq]
  exact hr.perm

/-- A channel may be changed without a word in the story if it records nothing new. -/
theorem Tells.modify (hr : r.Tells outside n) (topic : Topic) {f : Channel ℓ π → Channel ℓ π}
    (hf : ∀ c : Channel ℓ π, c.Silent (f c)) : r.Tells outside (n.modify topic f) := by
  unfold Network.modify
  split
  · next c hc => exact hr.silent hc (hf c)
  · exact hr

/-- A send that goes on was told when it started. -/
theorem Tells.advance (hr : r.Tells outside n) (t : Ticket) : r.Tells outside (n.advance t).1 := by
  unfold Network.advance
  split
  · next c hc => exact hr.silent hc (c.silent_advance t.delivery)
  · exact hr

/-- A consumer that goes on with a message, or has begun with one, does what the story has of it:
whatever the act finds, `others` is what is left to do for everybody else. -/
theorem tells_proceed {r' : Story ℓ π σ κ} (horderly : n.Orderly) {a : Address}
    {next : Next π κ × σ} (hshared : r'.shared = next.2)
    (hunderWay : (outside ++ (n.others a ++ next.1.rests)).Perm r'.underWay)
    (hfills : r.Fills n) (hsent : r'.sent = r.sent ++ next.1.sends) (hdeeds : r'.deeds = r.deeds) :
    r'.Tells outside (n.proceed a next) := by
  have hproceeds := Network.proceed_spec horderly a next
  refine ⟨hproceeds.shared_eq.trans hshared.symm, ?_, hproceeds.orderly, ?_⟩
  · exact (hproceeds.perm.append_left outside).trans hunderWay
  · obtain ⟨next, shared⟩ := next
    cases next with
    | done failure =>
      have hset : r.Fills (Network.setPending { n with shared } a none) := hfills.of_eq rfl
      refine (hset.modify a.topic fun c => c.silent_finish a.consumer).congr ?_ hdeeds
      rw [hsent, Next.sends, List.append_nil]
    | send topic m rest =>
      have hshown : r.Fills ({ n with shared } : Network ℓ π σ κ) := hfills.of_eq rfl
      have hposted : r'.Fills (Network.send { n with shared } topic m).1 :=
        hshown.send topic m hsent hdeeds
      exact hposted.of_eq rfl
    | wait rest =>
      refine Fills.of_eq (n := n) (hfills.congr ?_ hdeeds) rfl
      rw [hsent, Next.sends, List.append_nil]

/-- Where no consumer begins with a message, the channels have nothing new on record. -/
theorem Fills.deed (hfills : r.Fills n) {d : Deed ℓ π σ κ} (hd : ∀ a, d.begunAt? a = none) :
    Fills { r with deeds := r.deeds ++ [d] } n := by
  intro topic
  obtain ⟨c, hc, hmessages, hbegun⟩ := hfills topic
  refine ⟨c, hc, hmessages, fun i => ?_⟩
  rw [hbegun, begunAt, begunAt, List.filterMap_append]
  simp [hd]

/-- What is left to do of a message stands somewhere among all that is under way. -/
theorem exists_place {rest : κ} {others : List κ} (hperm : (rest :: others).Perm r.underWay) :
    ∃ place, r.underWay[place]? = some rest ∧ others.Perm (r.underWay.eraseIdx place) := by
  obtain ⟨place, hplace, hrest⟩ := List.getElem_of_mem (hperm.subset List.mem_cons_self)
  have herased := (List.getElem_cons_eraseIdx_perm hplace).trans hperm.symm
  rw [hrest] at herased
  exact ⟨place, by rw [List.getElem?_eq_getElem hplace, hrest], herased.cons_inv.symm⟩

/-- A consumer goes on with the message it is in the midst of. -/
theorem Tells.goOn (hr : r.Tells outside n) {a : Address} {p : Pending κ}
    (hp : n.pending.lookup a = some p) :
    ∃ place, (r.step h (.goOn place)).Tells outside (n.proceed a (h.resume p.rest n.shared)) := by
  have hrests := Network.rests_perm_others hr.orderly hp
  obtain ⟨place, hplace, hothers⟩ := exists_place
    ((List.perm_middle.symm.trans (hrests.symm.append_left outside)).trans hr.perm)
  refine ⟨place, ?_⟩
  rw [step, hplace, hr.shared_eq]
  refine tells_proceed hr.orderly rfl ?_ (hr.fills.deed fun _ => rfl) rfl rfl
  rw [← List.append_assoc]
  exact hothers.append_right _

/-- A consumer takes its turn: it takes nothing, or it begins with a message. -/
theorem Tells.takeNext (hr : r.Tells outside n) {a : Address} (ha : n.pending.lookup a = none) :
    r.Tells outside (n.takeNext h a) ∨
      ∃ label m, (r.step h (.begin (some a) label m)).Tells outside (n.takeNext h a) := by
  unfold Network.takeNext
  split
  · exact .inl (hr.line _ _)
  · next c hc =>
    have hcalm := Network.calm_put n a.topic (c.take a.consumer).1
    rcases c.take_cases a.consumer with ⟨hnone, hsilent⟩ | ⟨m, k, hsome, hk, hmessages, hbegun⟩
    · have hput := hr.silent hc hsilent
      rcases htaken : c.take a.consumer with ⟨c', taken⟩
      rw [htaken] at hput hnone
      obtain rfl : taken = none := hnone
      exact .inl (hput.line _ _)
    · refine .inr ⟨k.label, m, ?_⟩
      rcases htaken : c.take a.consumer with ⟨c', taken⟩
      rw [htaken] at hsome hmessages hbegun hcalm
      obtain rfl : taken = some m := hsome
      simp only [hk]
      refine tells_proceed (r := { r with
        deeds := r.deeds ++ [⟨r.shared, .begin (some a) k.label m⟩] }) (hcalm.orderly hr.orderly)
        ?_ ?_ (hr.fills.begun hc hmessages hbegun rfl rfl) ?_ rfl
      · rw [hr.shared_eq]
        rfl
      · have hothers : (n.put a.topic c').others a = n.rests := by
          rw [← Network.rests_eq_others (by rw [hcalm.pending_eq]; exact ha), hcalm.rests_eq]
        rw [hothers, hr.shared_eq, ← List.append_assoc]
        exact hr.perm.append_right _
      · rw [hr.shared_eq]
        rfl

/-- One more act at the beginning brings the story to the same network. -/
theorem Reaches.act {r' : Story ℓ π σ κ} (o : Occurrence ℓ π σ) (ho : o.IsAct)
    (more : List (Occurrence ℓ π σ)) (hmore : ∀ o ∈ more, o.IsAct)
    (hr' : ((r.run h more).step h o) = r') (h' : r'.Reaches h outside n) :
    r.Reaches h outside n := by
  obtain ⟨next, hnext, htells⟩ := h'
  refine ⟨more ++ o :: next, fun o' ho' => ?_, ?_⟩
  · rcases List.mem_append.1 ho' with ho' | ho'
    · exact hmore o' ho'
    · rcases List.mem_cons.1 ho' with rfl | ho'
      · exact ho
      · exact hnext o' ho'
  · rw [run_append, run, List.foldl_cons, hr']
    exact htells

/-- A story that is where the network is needs no more acts. -/
theorem Tells.reaches (hr : r.Tells outside n) : r.Reaches h outside n := ⟨[], by simp, hr⟩

/-- Whatever the network does goes on with the story. -/
theorem stable_reaches (r : Story ℓ π σ κ) (outside : List κ) :
    Network.Stable h (r.Reaches h outside) := by
  constructor
  · rintro n ⟨more, hmore, htells⟩ ready awaited
    exact ⟨more, hmore, htells.line ready awaited⟩
  · rintro n ⟨more, hmore, htells⟩ t
    exact ⟨more, hmore, htells.advance t⟩
  · rintro n a ha ⟨more, hmore, htells⟩
    rcases htells.takeNext (h := h) ha with hnothing | ⟨label, m, hbegun⟩
    · exact ⟨more, hmore, hnothing⟩
    · exact .act (.begin (some a) label m) trivial more hmore rfl hbegun.reaches
  · rintro n a p hp ⟨more, hmore, htells⟩
    obtain ⟨place, hon⟩ := htells.goOn (h := h) hp
    exact .act (.goOn place) trivial more hmore rfl hon.reaches

/-! ## Somebody outside -/

/-- Somebody outside goes through with a message that ends. The story has the beginning already,
and the network not yet the message that is to be sent. -/
theorem reaches_handle (sends : Nat) {r' : Story ℓ π σ κ} {next : Next π κ × σ}
    (hends : Network.EndsIn h sends next.1) (horderly : n.Orderly) (hshared : r'.shared = next.2)
    (hunderWay : (next.1.rests ++ n.rests).Perm r'.underWay) (hfills : r.Fills n)
    (hsent : r'.sent = r.sent ++ next.1.sends) (hdeeds : r'.deeds = r.deeds) :
    r'.Reaches h [] (Network.handle h sends n next).1 := by
  induction sends generalizing r r' n next with
  | zero =>
    obtain ⟨next, shared⟩ := next
    cases next with
    | done failure =>
      rw [Next.sends, List.append_nil] at hsent
      exact Tells.reaches ⟨hshared.symm, hunderWay, horderly, (hfills.congr hsent hdeeds).of_eq rfl⟩
    | send topic m rest => exact hends.elim
    | wait rest => exact hends.elim
  | succ sends ih =>
    obtain ⟨next, shared⟩ := next
    cases next with
    | done failure =>
      rw [Next.sends, List.append_nil] at hsent
      exact Tells.reaches ⟨hshared.symm, hunderWay, horderly, (hfills.congr hsent hdeeds).of_eq rfl⟩
    | wait rest => exact hends.elim
    | send topic m rest =>
      have hstill := Network.still_send { n with shared } topic m
      have hshown : r.Fills ({ n with shared } : Network ℓ π σ κ) := hfills.of_eq rfl
      have hposted : r'.Tells [rest] (Network.send { n with shared } topic m).1 := by
        refine ⟨hstill.shared_eq.trans hshared.symm, ?_, hstill.orderly horderly,
          hshown.send topic m hsent hdeeds⟩
        rw [hstill.rests_eq]
        exact hunderWay
      -- the network moves until the message is sent, and then the rest is gone on with
      obtain ⟨more, hmore, htells⟩ := (stable_reaches r' [rest]).await (hposted.reaches (h := h))
        [(Network.send { n with shared } topic m).2]
      obtain ⟨place, hplace, hothers⟩ := exists_place htells.perm
      refine .act (.goOn place) trivial more hmore rfl ?_
      have hperform : (r'.run h more).step h (.goOn place) =
          (r'.run h more).perform h ((r'.run h more).underWay.eraseIdx place) (.goOn rest) := by
        rw [step, hplace]
      rw [hperform, Network.handle, Network.sendAndAwait]
      refine ih (hends _) htells.orderly ?_ ?_ (htells.fills.deed fun _ => rfl) ?_ rfl
      · rw [htells.shared_eq]
        rfl
      · rw [htells.shared_eq]
        exact List.perm_append_comm.trans (hothers.append_right _)
      · rw [htells.shared_eq]
        rfl

end Tells

/-! ## Whatever is done -/

section Leads

variable {D : Dealings ℓ σ} {posts : List (Topic × Message π)} {calls : List (ℓ × Message π)}
  {n n' : Network ℓ π σ κ}

/-- The story of the one network goes on to the other: these messages are posted meanwhile, these
are handled on the spot, and whatever else somebody outside does is within these bounds. -/
def Continues (h : Handlers ℓ π σ κ) (D : Dealings ℓ σ) (posts : List (Topic × Message π))
    (calls : List (ℓ × Message π)) (r : Story ℓ π σ κ) (n' : Network ℓ π σ κ) : Prop :=
  ∃ more : List (Occurrence ℓ π σ), (∀ o ∈ more, o.Within D) ∧
    more.filterMap Occurrence.post? = posts ∧ more.filterMap Occurrence.call? = calls ∧
    (r.run h more).Tells [] n'

/-- What consumers do posts nothing. -/
theorem Reaches.continues {r : Story ℓ π σ κ} (hr : r.Reaches h [] n') :
    r.Continues h D [] [] n' := by
  obtain ⟨more, hmore, htells⟩ := hr
  refine ⟨more, fun o ho => (hmore o ho).within D, ?_, ?_, htells⟩
  · rw [List.filterMap_eq_nil_iff]
    exact fun o ho => (hmore o ho).post?_eq
  · rw [List.filterMap_eq_nil_iff]
    exact fun o ho => (hmore o ho).call?_eq

/-- One thing happens, and then consumers do something. -/
theorem Reaches.continues_cons {r : Story ℓ π σ κ} (o : Occurrence ℓ π σ) (ho : o.Within D)
    (hr : (r.step h o).Reaches h [] n') : r.Continues h D o.post?.toList o.call?.toList n' := by
  obtain ⟨more, hwithin, hposts, hcalls, htells⟩ := hr.continues (D := D)
  refine ⟨o :: more, fun o' ho' => ?_, ?_, ?_, htells⟩
  · rcases List.mem_cons.1 ho' with rfl | ho'
    · exact ho
    · exact hwithin o' ho'
  · rw [List.filterMap_cons]
    cases o.post? <;> simp [hposts]
  · rw [List.filterMap_cons]
    cases o.call? <;> simp [hcalls]

/-- Whatever story the one network tells goes on to the other. -/
theorem Tells.continues (hleads : Network.Leads h D posts calls n n') {r : Story ℓ π σ κ}
    (hr : r.Tells [] n) : r.Continues h D posts calls n' := by
  induction hleads generalizing r with
  | refl n => exact hr.reaches.continues
  | trans _ _ ih ih' =>
    obtain ⟨more, hwithin, hposts, hcalls, htells⟩ := ih hr
    obtain ⟨more', hwithin', hposts', hcalls', htells'⟩ := ih' htells
    refine ⟨more ++ more', fun o ho => ?_, by rw [List.filterMap_append, hposts, hposts'],
      by rw [List.filterMap_append, hcalls, hcalls'], ?_⟩
    · rcases List.mem_append.1 ho with ho | ho
      · exact hwithin o ho
      · exact hwithin' o ho
    · rw [run_append]
      exact htells'
  -- consumers' own deeds are told by the induction over moves
  | moves hmoves => exact (hmoves (r.stable_reaches []) hr.reaches).continues
  | @subscribe n topic label _ s =>
    have hsilent : r.Tells [] (n.subscribe topic label s) :=
      hr.modify topic fun c => c.silent_subscribe label s
    exact hsilent.reaches.continues
  | @change n f hf =>
    refine Reaches.continues_cons (.change f) hf (Tells.reaches ?_)
    exact ⟨congrArg f hr.shared_eq, hr.perm, hr.orderly, (hr.fills.congr rfl rfl).of_eq rfl⟩
  | send n topic m =>
    refine Reaches.continues_cons (.post topic m) trivial (Tells.reaches ?_)
    have hstill := Network.still_send n topic m
    refine ⟨hstill.shared_eq.trans hr.shared_eq, ?_, hstill.orderly hr.orderly,
      hr.fills.send topic m rfl rfl⟩
    rw [hstill.rests_eq]
    exact hr.perm
  | @handle sends n label hlabel m hends =>
    refine Reaches.continues_cons (.begin none label m) hlabel ?_
    refine reaches_handle sends hends hr.orderly ?_ ?_ (hr.fills.deed fun _ => rfl) ?_ rfl
    · rw [hr.shared_eq]
      rfl
    · rw [hr.shared_eq]
      exact List.perm_append_comm.trans (hr.perm.append_right _)
    · rw [hr.shared_eq]
      rfl

end Leads

end Story

end MarketEngine
