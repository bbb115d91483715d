import MarketEngine.Proofs.Channel.Effects
import MarketEngine.Proofs.Evaluation.Wiring
/-!
# Where triggers come from

Triggers come from outside, or from the tasks' own consumers of candles, one for each candle that
such a consumer begins with (`Raises`). So the triggers that the task of a pair follows are those
that were posted for the pair and one for each candle that its consumer began with
(`Session.Wired.filter_flatMap_raised`), and they are counted by what the posted messages lead to
(`Session.led`).
-/

namespace MarketEngine

variable {σ α : Type}

/-! ## The triggers that consumers send -/

/-- The triggers that are sent on an act's account. -/
def Act.raised (e : Engine σ α) : Act Role (Payload α) (Stage α) → List (Message (Payload α))
  | .begin _ role _ => role.raised e
  | .goOn _ => []

/-- Cycles send matrices and verdicts, and everybody else sends the triggers there are to send. -/
inductive Act.Sends (e : Engine σ α) (act : Act Role (Payload α) (Stage α)) :
    List (Topic × Message (Payload α)) → Prop
  | downstream {sends : List (Topic × Message (Payload α))} (hraised : act.raised e = [])
    (hsends : ∀ p ∈ sends, p.1 = .strategy ∨ p.1 = .tradingMode) : Sends e act sends
  | triggers : Sends e act ((act.raised e).map (.evaluation, ·))

section Sends

variable {e : Engine σ α} {act : Act Role (Payload α) (Stage α)}
  {sends : List (Topic × Message (Payload α))}

/-- No act sends candles. -/
theorem Act.Sends.candles_eq (h : act.Sends e sends) : sends.filter (·.1 = .candles) = [] := by
  rw [List.filter_eq_nil_iff]
  intro p hp
  cases h with
  | downstream _ hdown => rcases hdown p hp with htopic | htopic <;> simp [htopic]
  | triggers =>
    obtain ⟨m, -, rfl⟩ := List.mem_map.1 hp
    simp

/-- The triggers that an act sends are those on its account. -/
theorem Act.Sends.triggers_eq (h : act.Sends e sends) :
    (sends.filter (·.1 = .evaluation)).map (·.2) = act.raised e := by
  cases h with
  | downstream hraised hdown =>
    have hnone : sends.filter (·.1 = .evaluation) = [] := by
      rw [List.filter_eq_nil_iff]
      intro p hp
      rcases hdown p hp with htopic | htopic <;> simp [htopic]
    rw [hnone, hraised]
    rfl
  | triggers => simp [List.filter_map, Function.comp_def]

end Sends

section Deeds

variable [Amount α] [Written α] [Exchange σ α]

omit [Exchange σ α] in
/-- The end of a cycle sends nothing. -/
theorem Engine.sends_conclude (e : Engine σ α) (i : Nat) : (e.conclude i).1.sends = [] := by
  obtain ⟨failure, hdone⟩ := (e.conclude_spec i).done
  rw [hdone]
  rfl

omit [Exchange σ α] in
/-- Verdicts are sent to the trading mode. -/
theorem Engine.sends_handOnVerdicts (e : Engine σ α) (i : Nat) (trigger : Trigger) :
    ∀ p ∈ (e.handOnVerdicts i trigger).1.sends, p.1 = .tradingMode := by
  rcases e.handOnVerdicts_cases i trigger with ⟨m, hsend⟩ | hconclude
  · rw [hsend]
    intro p hp
    rw [List.mem_singleton.1 hp]
  · rw [hconclude, sends_conclude]
    exact List.forall_mem_nil _

/-- A cycle sends its matrix to the strategies, or its verdicts to the trading mode. -/
theorem Engine.sends_beginCycle (e : Engine σ α) (i : Nat) (trigger : Trigger) :
    ∀ p ∈ (e.beginCycle i trigger).1.sends, p.1 = .strategy ∨ p.1 = .tradingMode := by
  have hbegin := e.beginCycle_spec i trigger
  generalize e.beginCycle i trigger = outcome at hbegin ⊢
  generalize e.forced i trigger = read at hbegin
  cases hbegin with
  | dropped => exact List.forall_mem_nil _
  | @accepted _ e' _ _ _ _ _ houtcome =>
    rcases houtcome with ⟨m, rfl⟩ | rfl
    · intro p hp
      rw [List.mem_singleton.1 hp]
      exact .inl rfl
    · exact fun p hp => .inr (e'.sends_handOnVerdicts i trigger p hp)

/-- Whatever an act is, it sends what the cycle it belongs to hands on, or the triggers there are to
send. -/
theorem Act.sends_spec (e : Engine σ α) (act : Act Role (Payload α) (Stage α)) :
    act.Sends e (act.outcome Engine.handlers e).1.sends := by
  cases act with
  | begin a role m =>
    have houtcome : (Act.begin a role m).outcome Engine.handlers e
      = Engine.startMessage role m e := rfl
    rw [houtcome]
    cases hcall : role.call? m with
    | none =>
      rw [(Engine.neutral_startMessage hcall e).sends_eq]
      exact .triggers
    | some call =>
      obtain ⟨i, trigger⟩ := call
      rw [Engine.startMessage_of_call hcall]
      refine .downstream ?_ (e.sends_beginCycle i trigger)
      cases role with
      | cycles i => rfl
      | _ => simp [Role.call?] at hcall
  | goOn stage =>
    have houtcome : (Act.goOn stage).outcome Engine.handlers e = Engine.resumeStage stage e := rfl
    rw [houtcome]
    cases stage with
    | verdicts i trigger =>
      exact .downstream rfl fun p hp => .inr (e.sends_handOnVerdicts i trigger p hp)
    | conclusion i =>
      refine .downstream rfl ?_
      rw [Engine.resumeStage, e.sends_conclude]
      exact List.forall_mem_nil _
    | matching w =>
      rw [(Engine.neutral_resumeStage rfl e).sends_eq]
      exact .triggers
    | nothing =>
      rw [(Engine.neutral_resumeStage rfl e).sends_eq]
      exact .triggers

/-- Consumers send triggers, matrices and verdicts, and nothing else. -/
theorem Engine.silentOn {topic : Topic}
    (htopic : topic ≠ .evaluation ∧ topic ≠ .strategy ∧ topic ≠ .tradingMode) :
    (handlers : Handlers Role (Payload α) (Engine σ α) (Stage α)).SilentOn topic := by
  have hsends : ∀ (e : Engine σ α) (act : Act Role (Payload α) (Stage α)),
      ∀ p ∈ (act.outcome handlers e).1.sends, p.1 ≠ topic := by
    rintro e act p hp rfl
    have hspec := act.sends_spec e
    generalize (act.outcome handlers e).1.sends = sends at hp hspec
    cases hspec with
    | downstream _ hdown => rcases hdown p hp with h | h <;> simp [h] at htopic
    | triggers =>
      obtain ⟨m, -, rfl⟩ := List.mem_map.1 hp
      exact htopic.1 rfl
  exact ⟨fun role m e => hsends e (.begin none role m), fun stage e => hsends e (.goOn stage)⟩

/-! ## The triggers of a story -/

/-- While these messages were posted from outside, nobody else sent candles, and the triggers are
those that were posted and those that were raised. Only cycles are called from outside. -/
structure Raises (start : Engine σ α) (r : SessionStory σ α)
    (posted : List (Topic × Message (Payload α))) : Prop where
  grows : start.Grows r.shared
  found : ∀ d ∈ r.deeds, start.Grows d.found
  outside : ∀ d ∈ r.deeds, ∀ label m, d.act = .begin none label m → ∃ i, label = .cycles i
  candles : r.sentOn .candles = (posted.filter (·.1 = .candles)).map (·.2)
  triggers : (r.sentOn .evaluation).Perm ((posted.filter (·.1 = .evaluation)).map (·.2)
    ++ r.deeds.flatMap fun d => d.act.raised d.found)

namespace Raises

variable {start : Engine σ α} {r : SessionStory σ α}
  {posted : List (Topic × Message (Payload α))}

omit [Amount α] [Written α] [Exchange σ α] in
/-- At its beginning a story has neither candles nor triggers. -/
theorem refl (start : Engine σ α) : Raises start { shared := start } [] :=
  ⟨.refl start, List.forall_mem_nil _, List.forall_mem_nil _, rfl, .refl _⟩

/-- An act of somebody adds the triggers on its account. -/
theorem perform (h : Raises start r posted) (hpublishes : start.Publishes)
    (others : List (Stage α)) {act : Act Role (Payload α) (Stage α)}
    (hact : ∀ label m, act = .begin none label m → ∃ i, label = .cycles i) :
    Raises start (r.perform Engine.handlers others act) posted := by
  have hturn : Deed.Turn ⟨r.shared, act⟩ (act.outcome Engine.handlers r.shared) :=
    Deed.turn (hpublishes.grows h.grows)
  have hsent : (r.perform Engine.handlers others act).sent
      = r.sent ++ (act.outcome Engine.handlers r.shared).1.sends := rfl
  have hdeeds : (r.perform Engine.handlers others act).deeds = r.deeds ++ [⟨r.shared, act⟩] := rfl
  have hsends := act.sends_spec r.shared
  generalize (act.outcome Engine.handlers r.shared).1.sends = sends at hsent hsends
  refine ⟨h.grows.trans hturn.adds.grows, fun d hd => ?_, fun d hd => ?_, ?_, ?_⟩
  · rw [hdeeds] at hd
    rcases List.mem_append.1 hd with hd | hd
    · exact h.found d hd
    · rw [List.mem_singleton.1 hd]
      exact h.grows
  · rw [hdeeds] at hd
    rcases List.mem_append.1 hd with hd | hd
    · exact h.outside d hd
    · rw [List.mem_singleton.1 hd]
      exact hact
  · rw [Story.sentOn_eq hsent, hsends.candles_eq, List.map_nil, List.append_nil, h.candles]
  · rw [Story.sentOn_eq hsent, hsends.triggers_eq, hdeeds, List.flatMap_append,
      ← List.append_assoc]
    simpa using h.triggers.append_right _

/-- Whatever happens adds what is posted, or the triggers on the act's account. -/
theorem step (h : Raises start r posted) (hpublishes : start.Publishes)
    {o : Occurrence Role (Payload α) (Engine σ α)} (ho : o.Proper) :
    Raises start (r.step Engine.handlers o) (posted ++ o.post?.toList) := by
  have hquiet : posted ++ [] = posted := List.append_nil posted
  cases o with
  | begin a label m =>
    rw [show (Occurrence.begin a label m).post?.toList = [] from rfl, hquiet]
    refine h.perform hpublishes _ fun label' m' hact => ?_
    cases hact
    exact ho.within
  | goOn place =>
    rw [show (Occurrence.goOn place).post?.toList = [] from rfl, hquiet, Story.step]
    split
    · exact h
    · refine h.perform hpublishes _ fun label m hact => ?_
      cases hact
  | post topic m =>
    have hsent : (r.step Engine.handlers (.post topic m)).sent = r.sent ++ [(topic, m)] := rfl
    refine ⟨h.grows, h.found, h.outside, ?_, ?_⟩
    · rw [Story.sentOn_eq hsent, h.candles, ← List.map_append, ← List.filter_append]
      rfl
    · rw [Story.sentOn_eq hsent, Occurrence.post?, Option.toList_some, List.filter_append,
        List.map_append, List.append_assoc]
      -- what is posted goes in front of what was raised, which is why only the order is lost
      refine (h.triggers.append_right _).trans ?_
      rw [List.append_assoc]
      exact List.perm_append_comm.append_left _
  | change f =>
    have hspares : r.shared.Spares (f r.shared) := ho.within r.shared
    rw [show (Occurrence.change f).post?.toList = [] from rfl, hquiet]
    exact ⟨h.grows.trans hspares.toGrows, h.found, h.outside, h.candles, h.triggers⟩

/-- Through all that happens the triggers are those that were posted and those that were raised. -/
theorem run (h : Raises start r posted) (hpublishes : start.Publishes)
    {all : List (Occurrence Role (Payload α) (Engine σ α))} (hall : ∀ o ∈ all, o.Proper) :
    Raises start (r.run Engine.handlers all) (posted ++ all.filterMap Occurrence.post?) := by
  induction all generalizing r posted with
  | nil => rwa [List.filterMap_nil, List.append_nil]
  | cons o rest ih =>
    have hstep := ih (h.step hpublishes (hall o List.mem_cons_self))
      fun o ho => hall o (List.mem_cons_of_mem _ ho)
    rw [List.append_assoc] at hstep
    rw [List.filterMap_cons, Story.run, List.foldl_cons, ← Story.run]
    cases hpost : o.post? <;> simpa [hpost] using hstep

end Raises

end Deeds

/-! ## What posted messages lead to -/

namespace Session

/-- The trigger that a refreshed candle of a pair leads to. -/
def refreshTrigger (pair : Symbol × TimeFrame) : Message (Payload α) :=
  Engine.triggerMessage pair.1 pair.2 { source := Engine.refreshSource, finalize := true }

/-- The trigger that the task of a pair begins with because a message was posted. -/
def led (pair : Symbol × TimeFrame) (m : Message (Payload α)) : Option (Message (Payload α)) :=
  if (Subscription.ofPair pair).covers m.key then
    match m.payload with
    | .trigger _ => some m
    | .candle _ => some (refreshTrigger pair)
    | _ => none
  else none

/-- A candle of a pair leads to one trigger of the task of that pair, and of no other. -/
theorem led_candle {pair : Symbol × TimeFrame} (hwildcard : pair.1 ≠ Symbol.wildcard)
    (symbol : Symbol) (t : TimeFrame) (update : CandleUpdate α) :
    led pair ⟨⟨symbol, some t⟩, .candle update⟩
      = if pair = (symbol, t) then some (refreshTrigger pair) else none := by
  simp only [led, Subscription.covers_ofPair hwildcard]

/-- The trigger of a pair leads its own task to begin with it, and no other. -/
theorem led_triggerMessage {pair : Symbol × TimeFrame} (hwildcard : pair.1 ≠ Symbol.wildcard)
    (symbol : Symbol) (t : TimeFrame) (trigger : Trigger) :
    led pair (Engine.triggerMessage symbol t trigger : Message (Payload α))
      = if pair = (symbol, t) then some (Engine.triggerMessage symbol t trigger) else none := by
  simp only [led, Engine.triggerMessage, Subscription.covers_ofPair hwildcard]

/-- What messages lead to are the triggers among them and one for each candle. -/
theorem filterMap_led_perm (pair : Symbol × TimeFrame) (posts : List (Message (Payload α))) :
    (posts.filterMap (led pair)).Perm
      (((posts.filter (·.payload.topic = .evaluation)).filter
          ((Subscription.ofPair pair).covers ·.key)) ++
        ((posts.filter (·.payload.topic = .candles)).filter
          ((Subscription.ofPair pair).covers ·.key)).map fun _ => refreshTrigger pair) := by
  induction posts with
  | nil => exact .refl _
  | cons m rest ih =>
    obtain ⟨key, payload⟩ := m
    cases hcovers : (Subscription.ofPair pair).covers key with
    | false => cases payload <;> simpa [led, hcovers, Payload.topic] using ih
    | true =>
      cases payload with
      | trigger trigger =>
        have hmore := ih.cons (⟨key, .trigger trigger⟩ : Message (Payload α))
        simpa [led, hcovers, Payload.topic] using hmore
      | candle update =>
        have hmore := (ih.cons (refreshTrigger pair)).trans List.perm_middle.symm
        simpa [led, hcovers, Payload.topic] using hmore
      | _ => simpa [led, hcovers, Payload.topic] using ih

/-- Triggers of a symbol, one for each of some time frames, lead to one trigger of the task of a
pair for each time its time frame is among them, if the symbol is its own. -/
theorem filterMap_led_triggers {pair : Symbol × TimeFrame} (hwildcard : pair.1 ≠ Symbol.wildcard)
    (symbol : Symbol) (ts : List TimeFrame) (trigger : Trigger) :
    (ts.map (Engine.triggerMessage symbol · trigger)).filterMap (led pair)
      = if pair.1 = symbol then List.replicate (ts.count pair.2)
          (Engine.triggerMessage pair.1 pair.2 trigger : Message (Payload α))
        else [] := by
  obtain ⟨symbol', t'⟩ := pair
  by_cases hsymbol : symbol' = symbol
  · subst hsymbol
    rw [if_pos rfl]
    induction ts with
    | nil => rfl
    | cons t rest ih =>
      rw [List.map_cons, List.filterMap_cons, led_triggerMessage hwildcard, List.count_cons, ih]
      by_cases ht : t' = t
      · simp [ht, List.replicate_succ]
      · simp [ht, Ne.symm ht]
  · rw [if_neg hsymbol, List.filterMap_map, List.filterMap_eq_nil_iff]
    intro t _
    simp [led_triggerMessage hwildcard, hsymbol]

/-! ## The triggers of a task -/

/-- What the deeds of a story may be by the wiring of the tasks: those consumers of candles that
trigger tasks are the ones with the tasks' numbers. -/
structure Wired (pairs : List (Symbol × TimeFrame)) (r : SessionStory σ α) : Prop where
  pair?_eq : ∀ d ∈ r.deeds, ∀ i, d.found.pair? i = pairs[i]?
  refreshes_iff : ∀ d ∈ r.deeds, ∀ a label m, d.act = .begin a label m → ∀ i,
    label = .refreshes i ↔ a = some ⟨.candles, i⟩ ∧ i < pairs.length

section Wired

variable {settings : Settings α} (hdistinct : settings.Distinct) {r : SessionStory σ α}
  (h : Wired settings.pairs r) {i : Nat} {pair : Symbol × TimeFrame}
  (hi : settings.pairs[i]? = some pair)
include hdistinct h hi

/-- What a deed raises for the task of a pair is raised by the task's own consumer of candles. -/
theorem Wired.filter_raised {d : SessionDeed σ α} (hd : d ∈ r.deeds) :
    (d.act.raised d.found).filter ((Subscription.ofPair pair).covers ·.key)
      = ((d.begunAt? ⟨.candles, i⟩).map fun _ => refreshTrigger pair).toList := by
  obtain ⟨hlt, hpair⟩ := List.getElem?_eq_some_iff.1 hi
  have hcovers : ∀ pair', (Subscription.ofPair pair).covers
      (refreshTrigger (α := α) pair').key = true ↔ pair = pair' := fun pair' =>
    Subscription.covers_ofPair (hdistinct.ne_wildcard (List.mem_of_getElem? hi)) pair'.1 pair'.2
  have hpairs := h.pair?_eq d hd
  have hrefreshes := h.refreshes_iff d hd
  obtain ⟨found, act⟩ := d
  cases act with
  | goOn stage => rfl
  | begin a label m =>
    specialize hrefreshes a label m rfl
    cases label with
    | refreshes j =>
      obtain ⟨rfl, hj⟩ := (hrefreshes j).1 rfl
      have hraised : (Act.begin (some ⟨.candles, j⟩) (.refreshes j) m).raised found
          = [refreshTrigger settings.pairs[j]] := by
        simp only [Act.raised, Role.raised, hpairs, List.getElem?_eq_getElem hj, Option.map_some,
          Option.toList_some]
        rfl
      rw [hraised]
      by_cases hij : j = i
      · subst hij
        simp [hcovers, hpair, Deed.begunAt?]
      · -- the pairs are distinct, so that this is another task's trigger
        have hne : pair ≠ settings.pairs[j] := fun heq =>
          hij (hdistinct.pairs.getElem_inj_iff.1 (hpair.trans heq).symm)
        simp [hcovers, hne, hij, Deed.begunAt?]
    | _ =>
      -- nobody else raises a trigger, and nobody else stands in the place of the task's consumer
      have ha : a ≠ some ⟨.candles, i⟩ := fun ha => by simpa using (hrefreshes i).2 ⟨ha, hlt⟩
      cases a with
      | none => rfl
      | some a =>
        have hother : a ≠ ⟨.candles, i⟩ := fun heq => ha (congrArg some heq)
        simp [Act.raised, Role.raised, Deed.begunAt?, hother]

/-- The triggers for a pair are raised by the consumer of its candles, one for each message. -/
theorem Wired.filter_flatMap_raised :
    (r.deeds.flatMap fun d => d.act.raised d.found).filter ((Subscription.ofPair pair).covers ·.key)
      = (r.begunAt ⟨.candles, i⟩).map fun _ => refreshTrigger pair := by
  rw [List.filter_flatMap, List.flatMap_congr fun d hd => h.filter_raised hdistinct hi hd,
    Story.begunAt, List.map_filterMap, List.filterMap_eq_flatMap_toList]

end Wired

end Session

end MarketEngine
