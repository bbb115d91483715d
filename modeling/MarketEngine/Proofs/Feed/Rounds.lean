import MarketEngine.Proofs.Channel.Cancellation
import MarketEngine.Proofs.Feed.Answers
import MarketEngine.Proofs.Feed.Ticks
/-!
# Between the ticks

After a tick of the feed its candles are published, the orders are matched and the consumers work,
all of which makes one round (`Session.round`). Whatever happens meanwhile, the feed and the market
change only when candles are asked for again (`CandleScript.Later`). So where nobody but the ticks
asks for candles (`Session.AsksAlone`), a round leaves them as the tick of the feed did
(`Session.round_eq`).
-/

namespace MarketEngine

variable {σ α : Type} [Exchange σ α]

namespace CandleScript

variable (script : CandleScript σ α)

/-- Queries of other kinds take no answer. -/
theorem asked_aside {ex ex' : σ} (h : Exchange.Aside ex ex') :
    script.asked ex' = script.asked ex := by
  induction h with
  | refl => rfl
  | trades _ symbol limit ih => exact (script.asked_trades _ symbol limit).trans ih
  | ticker _ symbol ih => exact (script.asked_ticker _ symbol).trans ih
  | book _ symbol ih => exact (script.asked_book _ symbol).trans ih
  | balances _ ih => exact (script.asked_balances _).trans ih
  | openOrders _ symbol ih => exact (script.asked_openOrders _ symbol).trans ih

/-! ## Other changes of the engine -/

/-- What may become of an engine other than by ticks: more candles may have been asked for, but as
long as none were, the feed and the market are what they were. -/
structure Later (e e' : Engine σ α) : Prop where
  asked_prefix : script.asked e.exchange <+: script.asked e'.exchange
  same : script.asked e'.exchange = script.asked e.exchange →
    e'.feed = e.feed ∧ e'.market = e.market

namespace Later

variable {script} {e e' e'' : Engine σ α}

/-- Where nobody was asked for candles the feed and the market are what they were. -/
theorem of_eq (hasked : script.asked e'.exchange = script.asked e.exchange)
    (hfeed : e'.feed = e.feed) (hmarket : e'.market = e.market) : script.Later e e' :=
  ⟨hasked ▸ List.prefix_refl _, fun _ => ⟨hfeed, hmarket⟩⟩

/-- What may become of an engine twice may become of it. -/
theorem trans (h : script.Later e e') (h' : script.Later e' e'') : script.Later e e'' := by
  refine ⟨h.asked_prefix.trans h'.asked_prefix, fun hsame => ?_⟩
  -- where nothing was asked for altogether, nothing was in between
  have hmiddle : script.asked e'.exchange = script.asked e.exchange :=
    (h.asked_prefix.eq_of_length_le
      (hsame ▸ h'.asked_prefix.length_le)).symm
  obtain ⟨hfeed, hmarket⟩ := h.same hmiddle
  obtain ⟨hfeed', hmarket'⟩ := h'.same (hsame.trans hmiddle.symm)
  exact ⟨hfeed'.trans hfeed, hmarket'.trans hmarket⟩

end Later

/-- Reading candles asks for them. -/
theorem later_refreshCandles (e : Engine σ α) (symbol : Symbol) (t : TimeFrame) :
    script.Later e (e.refreshCandles symbol t).1 := by
  obtain ⟨ex', hrefresh, hasked⟩ := script.refresh_eq e.feed e.market e.exchange (symbol, t)
  have hexchange : (e.refreshCandles symbol t).1.exchange = ex' := by
    rw [Engine.refreshCandles, hrefresh]
  refine ⟨?_, fun hsame => ?_⟩
  · rw [hexchange, hasked]
    exact List.prefix_append _ _
  · rw [hexchange, hasked] at hsame
    simp at hsame

/-- What leaves feed and market alone may become of an engine. -/
theorem later_beside {e e' : Engine σ α} (h : e.Beside e') : script.Later e e' :=
  .of_eq (script.asked_aside h.exchange) h.feed_eq h.market_eq

/-- Whatever consumers do may become of an engine. -/
theorem admits_later : Engine.Admits script.Later where
  beside := script.later_beside
  refresh := script.later_refreshCandles
  trans := .trans

end CandleScript

namespace Session

variable [Amount α] [Written α]

/-- A tick, and then the work of the consumers. -/
def round (s : Session σ α) : Session σ α := s.tick.1.settle

/-- Nobody but the tick asks for candles in its round. -/
def AsksAlone (script : CandleScript σ α) (s : Session σ α) : Prop :=
  script.asked s.round.shared.exchange = script.asked s.shared.ticked.exchange

instance (script : CandleScript σ α) (s : Session σ α) : Decidable (s.AsksAlone script) :=
  inferInstanceAs (Decidable (_ = _))

/-- To publish several messages together may become of an engine. -/
theorem later_publishTogether (script : CandleScript σ α) (s : Session σ α)
    (ms : List (Message (Payload α))) : script.Later s.shared (s.publishTogether ms).shared :=
  (leads_publishTogether (D := ⟨script.Later, fun _ => True, fun _ => True⟩) s ms).shared
    script.admits_later.keepTo fun _ _ h => h

/-- After the tick of the feed, its messages are published and its symbols come to an end. -/
theorem later_tick (script : CandleScript σ α) (s : Session σ α) :
    script.Later s.shared.ticked s.tick.1.shared := by
  have hpublished := later_publishTogether script (s.modifyEngine Engine.ticked)
    ((s.shared.feed.tick s.shared.market s.shared.exchange).1.updates.map
      fun m => ⟨m.key, .candle m.payload⟩)
  have hmatched (s' : Session σ α) (h : script.Later s.shared.ticked s'.shared) :
      script.Later s.shared.ticked (s'.modifyEngine fun e => (e.matchAll true).1).shared :=
    h.trans (script.later_beside (s'.shared.beside_matchAll true))
  unfold tick
  simp only
  split
  · exact hmatched _ hpublished
  · exact hpublished

/-- What happens in a round after the tick of the feed. -/
theorem later_round (script : CandleScript σ α) (s : Session σ α) :
    script.Later s.shared.ticked s.round.shared :=
  (Network.stable_keepTo script.admits_later.keepTo _).settle (later_tick script s)

/-- Where nobody but the tick asks for candles, the round leaves the feed and the market as the tick
of the feed did. -/
theorem round_eq {script : CandleScript σ α} {s : Session σ α} (h : s.AsksAlone script) :
    s.round.shared.feed = s.shared.ticked.feed ∧ s.round.shared.market = s.shared.ticked.market :=
  (later_round script s).same h

end Session

/-! ## The channel of candles -/

/-- Steps of a channel that nobody stops leave it running. -/
theorem Channel.Reaches.running_eq {ℓ π : Type} {labels : ℓ → Prop} {c c' : Channel ℓ π}
    (h : c.Reaches (fun e => e.IsOrdinary labels) c') : c'.running = c.running := by
  obtain ⟨events, hevents, rfl⟩ := h
  induction events generalizing c with
  | nil => rfl
  | cons e rest ih =>
    rw [List.forall_mem_cons] at hevents
    refine (ih hevents.2).trans ?_
    cases e with
    | subscribe label subscription => rfl
    | stop => exact hevents.1.elim
    | start => exact hevents.1.elim
    | _ => exact (Channel.evolves_step c (by simp) (by simp) (by simp)).running_eq

namespace Session

variable [Amount α] [Written α]

omit [Exchange σ α] [Amount α] [Written α] in
/-- A channel that nobody stops stays up. -/
theorem isUp_of_reaches {labels : Role → Prop} {s s' : Session σ α}
    (hreaches : Network.Reaches (fun e => e.IsOrdinary labels) s s') {topic : Topic}
    (h : s.isUp topic = true) : s'.isUp topic = true := by
  rw [isUp, Option.any_eq_true] at h ⊢
  obtain ⟨c, hc, hrunning⟩ := h
  obtain ⟨c', hc', hsteps⟩ := hreaches hc
  exact ⟨c', hc', hsteps.running_eq.trans hrunning⟩

/-- A round leaves the channels running that were. -/
theorem isUp_round {s : Session σ α} {topic : Topic} (h : s.isUp topic = true) :
    s.round.isUp topic = true :=
  isUp_of_reaches ((Network.stable_reaches id Engine.handlers s.tick.1).settle (.refl _))
    (isUp_of_reaches (leads_tick (D := dealings) Engine.ticks_spares s).reaches h)

end Session

end MarketEngine
