import MarketEngine.Engine.Session
import MarketEngine.Proofs.Tables
/-!
# Building a session

A session is built if and only if its settings are valid (`Session.build_eq_ok_iff`). It registers a
channel for each topic in a fresh registry, where no topic is taken, and issues the producer of
each, which nobody has, so neither is refused.
-/

namespace MarketEngine

namespace Registry

variable {ℓ π α : Type} {exchange : String}

/-- A registry with channels of one exchange. -/
def only (exchange : String) (channels : Table Topic (Channel ℓ π)) : Registry ℓ π :=
  ⟨channels.map fun e => ((exchange, e.1), e.2)⟩

/-- In such a registry all channels are the exchange's. -/
theorem ofExchange_only (channels : Table Topic (Channel ℓ π)) :
    (only exchange channels).ofExchange exchange = channels := by
  simp [ofExchange, only, List.filterMap_map]

/-- A channel is found by its topic alone. -/
theorem get?_only (channels : Table Topic (Channel ℓ π)) (topic : Topic) :
    (only exchange channels).channels.get? (exchange, topic) = Table.get? channels topic := by
  induction channels with
  | nil => rfl
  | cons e rest ih =>
    obtain ⟨topic', c⟩ := e
    simp only [only, Table.get?, List.map_cons, List.lookup_cons] at ih ⊢
    by_cases htopic : topic = topic'
    · simp [htopic]
    · have hkey : (exchange, topic) ≠ (exchange, topic') := fun heq => htopic (Prod.mk.inj heq).2
      simpa [beq_false_of_ne htopic, beq_false_of_ne hkey] using ih

/-- A channel is put in place by its topic alone. -/
theorem put_only (channels : Table Topic (Channel ℓ π)) (topic : Topic) (c : Channel ℓ π) :
    (only exchange channels).channels.put (exchange, topic) c
      = (only exchange (Table.put channels topic c)).channels := by
  induction channels with
  | nil => rfl
  | cons e rest ih =>
    simp only [only, Table.put, List.map_cons] at ih ⊢
    by_cases htopic : e.1 = topic <;> simp [htopic, ih]

/-- Channels for distinct topics, of which none is taken, are registered in turn. -/
theorem foldlM_register {f : Topic → Channel ℓ π} {topics : List Topic} (hnodup : topics.Nodup)
    {channels : Table Topic (Channel ℓ π)} (hfree : ∀ topic ∈ topics, topic ∉ channels.keys) :
    topics.foldlM (fun r topic => r.register exchange topic (f topic)) (only exchange channels)
      = (.ok (only exchange (channels ++ topics.map fun topic => (topic, f topic))) :
        Except (EngineError α) (Registry ℓ π)) := by
  induction topics generalizing channels with
  | nil =>
    rw [List.map_nil, List.append_nil]
    rfl
  | cons topic rest ih =>
    obtain ⟨hnot, hnodup⟩ := List.nodup_cons.1 hnodup
    obtain ⟨htopic, hrest⟩ := List.forall_mem_cons.1 hfree
    have hnone : Table.get? channels topic = none :=
      Option.not_isSome_iff_eq_none.1 (mt Table.mem_keys_iff.2 htopic)
    have hregister : ((only exchange channels).register exchange topic (f topic) :
        Except (EngineError α) _) = .ok (only exchange (channels ++ [(topic, f topic)])) := by
      rw [register, get?_only, hnone, put_only, Table.put_of_not_mem htopic]
    have hfree : ∀ topic' ∈ rest, topic' ∉ Table.keys (channels ++ [(topic, f topic)]) := by
      intro topic' hmem
      have hne : topic' ≠ topic := fun heq => hnot (heq ▸ hmem)
      simpa [Table.keys, hne] using hrest topic' hmem
    have hlist : channels ++ (topic :: rest).map (fun topic => (topic, f topic))
        = channels ++ [(topic, f topic)] ++ rest.map fun topic => (topic, f topic) := by simp
    rw [List.foldlM_cons, hregister, hlist]
    exact ih hnodup hfree

/-- The producers of channels of distinct topics, of which none is issued, are issued in turn. -/
theorem foldlM_issueProducer (done : Table Topic (Channel ℓ π)) {rest : Table Topic (Channel ℓ π)}
    (hnodup : (Table.keys (done ++ rest)).Nodup)
    (hissued : ∀ e ∈ rest, e.2.producerIssued = false) :
    rest.keys.foldlM (fun r topic => r.issueProducer exchange topic) (only exchange (done ++ rest))
      = (.ok (only exchange (done ++ rest.map fun e => (e.1, e.2.withProducer))) :
        Except (EngineError α) (Registry ℓ π)) := by
  induction rest generalizing done with
  | nil => rfl
  | cons e rest ih =>
    obtain ⟨topic, c⟩ := e
    obtain ⟨hc, hissued⟩ := List.forall_mem_cons.1 hissued
    have hget : Table.get? (done ++ (topic, c) :: rest) topic = some c :=
      (Table.get?_eq_some_iff hnodup).2 (by simp)
    -- the topics before it are other ones, so only this channel is replaced
    have hput : Table.put (done ++ (topic, c) :: rest) topic c.withProducer
        = done ++ (topic, c.withProducer) :: rest := by
      refine Table.put_append_cons ?_ c c.withProducer rest
      rw [Table.keys, List.map_append, List.map_cons, List.nodup_append] at hnodup
      exact fun hmem => hnodup.2.2 topic hmem topic List.mem_cons_self rfl
    have hissue : ((only exchange (done ++ (topic, c) :: rest)).issueProducer exchange topic :
        Except (EngineError α) _)
          = .ok (only exchange (done ++ (topic, c.withProducer) :: rest)) := by
      have hissue : c.issueProducer = some c.withProducer := if_neg (Bool.eq_false_iff.1 hc)
      simp only [issueProducer, get, modify, get?_only, hget, bind, Except.bind, hissue, put_only,
        hput]
      rfl
    have hkeys : Table.keys (done ++ (topic, c.withProducer) :: rest)
        = Table.keys (done ++ (topic, c) :: rest) := by
      simp [Table.keys]
    have hrest := ih (done ++ [(topic, c.withProducer)])
    simp only [List.append_assoc, List.singleton_append] at hrest
    rw [Table.keys, List.map_cons, List.foldlM_cons, hissue]
    exact hrest (hkeys ▸ hnodup) hissued

end Registry

namespace Session

variable {σ α : Type}

/-- In a fresh registry all channels are opened and all producers issued. -/
theorem openChannels_eq (exchange : String) (queueSize tradeFilterSize : Nat) :
    (openChannels exchange queueSize tradeFilterSize : Except (EngineError α) _)
      = .ok (.only exchange (freshChannels queueSize tradeFilterSize)) := by
  have hdistinct : Topic.all.Nodup := by decide
  have hempty : ({} : Registry Role (Payload α)) = .only exchange [] := rfl
  have hissued : ∀ e ∈ Topic.all.map fun topic =>
      (topic, (channelFor queueSize tradeFilterSize topic : Channel Role (Payload α))),
      e.2.producerIssued = false := by
    simp [channelFor, Channel.empty]
  rw [openChannels, hempty,
    Registry.foldlM_register hdistinct fun _ _ => List.not_mem_nil, List.nil_append]
  exact Registry.foldlM_issueProducer [] hdistinct hissued

/-- A session is built if and only if its settings are valid. The matcher, the trader and the tasks
follow its channels. -/
theorem build_eq_ok_iff [Amount α] {settings : Settings α} {plan : Plan α} {exchange : σ}
    {exporter : Exporter} {folder : Folder} {s : Session σ α} :
    build settings plan exchange exporter folder = .ok s ↔ settings.validate = .ok () ∧
      s = (List.range (engine settings plan exchange exporter folder).tasks.length).foldl followTask
        ((followTrades
          { shared := engine settings plan exchange exporter folder
            channels := freshChannels settings.queueSize settings.tradeFilterSize }).followTrader
          0) := by
  rw [build]
  cases settings.validate with
  | error e => simp [bind, Except.bind]
  | ok =>
    simp only [bind, Except.bind, openChannels_eq, Registry.ofExchange_only, pure, Except.pure,
      Except.ok.injEq, true_and]
    exact eq_comm

end Session

end MarketEngine
