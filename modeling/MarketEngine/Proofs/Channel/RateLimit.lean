import MarketEngine.Proofs.Channel.Delivery
/-!
# Every so many sends

The filter of a channel counts the sends that start while the channel runs, and a send that finds
the count full selects the rate-limited consumers too. Any send that completes while the count is
full sets it back, whichever send filled it. All the same no start is lost (`Channel.rate_limit`):
of any `n` sends that start one after the other, one is flagged, and sends that do not overlap are
flagged at every `n`-th.
-/

namespace MarketEngine

variable {ℓ π : Type}

/-- A message that is counted fills the count or is one more below it. -/
theorem SendFilter.evaluate_willSend {f : SendFilter} (hsize : f.size ≤ counterLimit) :
    (f.willSend.evaluate.flagged = true ↔ f.size ≤ f.counter + 1) ∧
    (f.counter < f.size → f.willSend.evaluate.counter = f.counter + 1) := by
  constructor
  · rw [evaluate, willSend, decide_eq_true_eq, Nat.le_min]
    exact and_iff_left hsize
  · intro hlt
    exact Nat.min_eq_left (Nat.le_trans hlt hsize)

namespace Channel

/-! ## The sends that count -/

/-- A send at its start on a running channel. -/
structure Start (ℓ π : Type) where
  /-- The channel as the send found it. -/
  found : Channel ℓ π
  message : Message π

namespace Start

/-- The channel after the start. -/
def channel (s : Start ℓ π) : Channel ℓ π := (s.found.send s.message).1

/-- The consumers that the send selected. -/
def selected (s : Start ℓ π) : List Nat :=
  (s.channel.deliveries[(s.found.send s.message).2]?).elim [] (·.selected)

/-- Whether a registered consumer is rate-limited and asks for the message. -/
def Matches (s : Start ℓ π) (i : Nat) : Prop :=
  i ∈ s.found.registered ∧ ∃ k, s.found.consumers[i]? = some k ∧
    k.subscription.rateLimited = true ∧
    (k.subscription.symbol = s.message.key.symbol ∨ k.subscription.symbol = Symbol.wildcard) ∧
    k.subscription.acceptsTimeFrame s.message.key.timeFrame = true

end Start

/-- The message of a send that starts while the channel runs. -/
def starts? (c : Channel ℓ π) : ChannelEvent ℓ π → Option (Message π)
  | .send m => if c.running then some m else none
  | _ => none

/-- The sends that start in the course of a run while the channel runs, the earliest first. -/
def starts (c : Channel ℓ π) : List (ChannelEvent ℓ π) → List (Start ℓ π)
  | [] => []
  | e :: events => ((c.starts? e).map fun m => ⟨c, m⟩).toList ++ (c.step e).starts events

/-! ## What a send selects -/

/-- A start selects the consumers that its message reaches under the flag it leaves. -/
theorem Start.selected_eq (s : Start ℓ π) (hrunning : s.found.running = true) :
    s.selected = s.found.select s.message.key s.channel.filter.flagged := by
  simp only [selected, channel, send, hrunning, if_true, lookup, List.getElem?_concat_length,
    Option.elim_some]
  rfl

/-- A rate-limited consumer that asks for the message is selected if and only if the start is
flagged. -/
theorem Start.mem_selected {s : Start ℓ π} (hrunning : s.found.running = true) {i : Nat}
    (h : s.Matches i) : i ∈ s.selected ↔ s.channel.filter.flagged = true := by
  obtain ⟨hregistered, k, hk, hlimited, hsymbol, hframe⟩ := h
  have hcovers : k.subscription.covers s.message.key = true := by
    simp [Subscription.covers, hsymbol, hframe]
  rw [s.selected_eq hrunning, mem_select hk hregistered, hlimited]
  simp [hcovers]

/-- Only what starts on a running channel is among the starts. -/
theorem running_of_mem_starts {c : Channel ℓ π} {events : List (ChannelEvent ℓ π)}
    {s : Start ℓ π} (hs : s ∈ c.starts events) : s.found.running = true := by
  induction events generalizing c with
  | nil => simp [starts] at hs
  | cons e events ih =>
    rw [starts, List.mem_append] at hs
    rcases hs with hs | hs
    · obtain ⟨m, hm, rfl⟩ := Option.map_eq_some_iff.1 (Option.mem_toList.1 hs)
      cases e with
      | send m =>
        by_contra hstopped
        simp [starts?, hstopped] at hm
      | _ => simp [starts?] at hm
    · exact ih hs

/-! ## What the filter sees of a step -/

/-- A cancellation does not count. -/
theorem filter_cancel (c : Channel ℓ π) (i : Nat) : (c.cancel i).filter = c.filter := by
  unfold cancel
  split
  · rfl
  · split <;> rfl

/-- Cancellations in turn do not count. -/
theorem filter_foldl_cancel (c : Channel ℓ π) (order : List Nat) :
    (order.foldl cancel c).filter = c.filter := by
  induction order generalizing c with
  | nil => rfl
  | cons i rest ih => exact (ih (c.cancel i)).trans (c.filter_cancel i)

/-- A consumer's turn does not count. -/
theorem filter_take (c : Channel ℓ π) (i : Nat) : (c.take i).1.filter = c.filter := by
  unfold take
  split
  · rfl
  · split
    · rfl
    · split
      · rfl
      · split <;> rfl

/-- A stop of the channel leaves the count as it is. -/
theorem filter_stop (c : Channel ℓ π) : c.stop.filter = c.filter := by
  unfold stop
  split
  · rw [filter_foldl_cancel]
  · rfl

/-- A start of the channel leaves the count as it is. -/
theorem filter_start (c : Channel ℓ π) : c.start.filter = c.filter := by
  unfold start
  split <;> rfl

/-- What a step may mean for the filter: the message of a send that starts, if it counts, and the
channel after it. -/
inductive Counting (c : Channel ℓ π) : Option (Message π) → Channel ℓ π → Prop
  | started {m : Message π} {c' : Channel ℓ π} (hfilter : c'.filter = c.filter.willSend.evaluate)
      (hlength : c'.deliveries.length = c.deliveries.length + 1) (hsent : c'.sent = c.sent) :
    Counting c (some m) c'
  /-- A send on a stopped channel. -/
  | dropped {c' : Channel ℓ π} (hfilter : c'.filter = c.filter)
      (hlength : c'.deliveries.length = c.deliveries.length + 1)
      (hsent : c'.sent = c.sent ++ [c.deliveries.length]) : Counting c none c'
  | completed {d : Nat} {c' : Channel ℓ π} (hfilter : c'.filter = c.filter.hasSend)
      (hlength : c'.deliveries.length = c.deliveries.length) (hd : d < c.deliveries.length)
      (hsent : c'.sent = c.sent ++ [d]) : Counting c none c'
  | apart {c' : Channel ℓ π} (hfilter : c'.filter = c.filter ∨ c'.filter = c.filter.evaluate)
      (hlength : c'.deliveries.length = c.deliveries.length) (hsent : c'.sent = c.sent) :
    Counting c none c'

/-- A step that starts no send and ends none counts for nothing. -/
theorem Kept.counting {c c' : Channel ℓ π} (h : c.Kept c')
    (hfilter : c'.filter = c.filter ∨ c'.filter = c.filter.evaluate) : c.Counting none c' :=
  .apart hfilter (by rw [h.deliveries_eq]) h.sent_eq

/-- A send counts as it starts, if the channel runs. -/
theorem counting_send (c : Channel ℓ π) (m : Message π) :
    c.Counting (c.starts? (.send m)) (c.send m).1 := by
  by_cases hrunning : c.running = true
  · simp only [starts?, send, hrunning, if_true]
    exact .started rfl (by simp [lookup]) rfl
  · simp only [starts?, send, hrunning]
    exact .dropped rfl (by simp) rfl

/-- A send that goes on counts for nothing until it is completed, and then the full count may be set
back. -/
theorem counting_advance (c : Channel ℓ π) (d : Nat) : c.Counting none (c.advance d).1 := by
  unfold advance
  split
  · exact .apart (.inl rfl) rfl rfl
  · next s hs =>
    have hd : d < c.deliveries.length := (List.getElem?_eq_some_iff.1 hs).1
    split
    · exact .apart (.inl rfl) rfl rfl
    · split
      · exact .completed rfl rfl hd rfl
      · have hpass : c.Counting none (c.pass d) :=
          .apart (.inl rfl) (by simp [pass, modifyDelivery]) rfl
        split
        · exact hpass
        · split
          · exact hpass
          · split
            · exact .apart (.inl rfl)
                (by simp [enqueue, pass, modifyDelivery, modifyConsumer, wake])
                rfl
            · split
              · exact .apart (.inl rfl) rfl rfl
              · exact .apart (.inl rfl) rfl rfl

/-- Every step is the start of a send, the end of one, or counts for nothing. -/
theorem counting_step (c : Channel ℓ π) (e : ChannelEvent ℓ π) :
    c.Counting (c.starts? e) (c.step e) := by
  cases e with
  | send m => exact c.counting_send m
  | advance d => exact c.counting_advance d
  | subscribe label subscription => exact .apart (.inl rfl) rfl rfl
  | lookup key => exact .apart (.inr rfl) rfl rfl
  | issueProducer =>
    rw [step_issueProducer]
    exact .apart (.inl rfl) rfl rfl
  | take i => exact (kept_take c i).counting (.inl (c.filter_take i))
  | finish i => exact .apart (.inl rfl) rfl rfl
  | stopConsumer i => exact (kept_stopConsumer c i).counting (.inl (c.filter_cancel i))
  | remove i => exact (kept_remove c i).counting (.inl (c.filter_cancel i))
  | stop => exact (kept_stop c).counting (.inl c.filter_stop)
  | start => exact (kept_start c).counting (.inl c.filter_start)
  | lineUp => exact .apart (.inl rfl) rfl rfl

/-! ## The invariant -/

/-- Some send is not completed. -/
def IsBusy (c : Channel ℓ π) : Prop := ∃ d < c.deliveries.length, d ∉ c.sent

/-- If no send is under way then all of them are completed. -/
theorem not_isBusy {c : Channel ℓ π} (h : c.underWay = []) : ¬c.IsBusy := by
  rintro ⟨d, hd, hsent⟩
  exact hsent (mem_sent h (List.getElem?_eq_getElem hd))

/-- The flag says whether the count is full, and while it is, some send is not completed. -/
structure Steady (c : Channel ℓ π) : Prop where
  size_pos : 0 < c.filter.size
  size_le : c.filter.size ≤ SendFilter.counterLimit
  flagged_iff : c.filter.flagged = true ↔ c.filter.size ≤ c.filter.counter
  sent_lt : ∀ d ∈ c.sent, d < c.deliveries.length
  isBusy : c.filter.size ≤ c.filter.counter → c.IsBusy

/-- At first the count is not full. -/
theorem steady_empty (queueSize : Nat) {filterSize : Nat}
    (h : filterSize ≤ SendFilter.counterLimit) :
    (empty queueSize filterSize : Channel ℓ π).Steady where
  size_pos := Nat.le_max_right filterSize 1
  size_le := Nat.max_le.2 ⟨h, by decide⟩
  flagged_iff := by simp [empty, SendFilter.every]
  sent_lt := by simp [empty]
  isBusy := by simp [empty, SendFilter.every]

/-- Whatever a step means for the filter, the flag keeps saying whether the count is full. Only a
start can fill the count, and that start is not completed yet; only a completion sets it back, and
only if it was full. -/
theorem Counting.steady {c c' : Channel ℓ π} {m : Option (Message π)} (h : c.Counting m c')
    (hc : c.Steady) : c'.Steady ∧ c'.filter.size = c.filter.size := by
  have hpos := hc.size_pos
  have hle := hc.size_le
  have hflagged := hc.flagged_iff
  cases h with
  | started hfilter hlength hsent =>
    have hsize : c'.filter.size = c.filter.size := by rw [hfilter]; rfl
    refine ⟨⟨hsize ▸ hpos, hsize ▸ hle, ?_, ?_, fun _ => ?_⟩, hsize⟩
    · rw [hfilter]
      simp [SendFilter.evaluate]
    · rw [hsent, hlength]
      exact fun d hd => Nat.lt_succ_of_lt (hc.sent_lt d hd)
    · -- the send that starts is not completed
      refine ⟨c.deliveries.length, by omega, fun hmem => ?_⟩
      rw [hsent] at hmem
      exact Nat.lt_irrefl _ (hc.sent_lt _ hmem)
  | dropped hfilter hlength hsent =>
    refine ⟨⟨hfilter ▸ hpos, hfilter ▸ hle, hfilter ▸ hflagged, ?_, ?_⟩, by rw [hfilter]⟩
    · intro d hd
      rw [hsent, List.mem_append, List.mem_singleton] at hd
      rcases hd with hd | rfl
      · have hlt := hc.sent_lt d hd
        omega
      · omega
    · intro hfull
      rw [hfilter] at hfull
      obtain ⟨d, hd, hbusy⟩ := hc.isBusy hfull
      refine ⟨d, by omega, ?_⟩
      rw [hsent, List.mem_append, List.mem_singleton]
      rintro (hmem | rfl)
      · exact hbusy hmem
      · omega
  | completed hfilter hlength hd hsent =>
    have hfull : ¬c'.filter.size ≤ c'.filter.counter ∧ c'.filter.flagged = false ∧
        c'.filter.size = c.filter.size := by
      rw [hfilter, SendFilter.hasSend]
      split
      · exact ⟨Nat.not_le.2 hpos, rfl, rfl⟩
      · next hunflagged =>
        exact ⟨fun h => hunflagged (hflagged.2 h), Bool.not_eq_true _ ▸ hunflagged, rfl⟩
    obtain ⟨hfull, hunflagged, hsize⟩ := hfull
    refine ⟨⟨hsize ▸ hpos, hsize ▸ hle, ?_, ?_, fun h => absurd h hfull⟩, hsize⟩
    · simp [hunflagged, hfull]
    · intro e he
      rw [hsent, List.mem_append, List.mem_singleton] at he
      rw [hlength]
      rcases he with he | rfl
      · exact hc.sent_lt e he
      · exact hd
  -- the flag may be evaluated anew, with the count it was evaluated for
  | apart hfilter hlength hsent =>
    have hfields : c'.filter.size = c.filter.size ∧ c'.filter.counter = c.filter.counter ∧
        (c'.filter.flagged = true ↔ c.filter.size ≤ c.filter.counter) := by
      rcases hfilter with hfilter | hfilter
      · rw [hfilter]
        exact ⟨rfl, rfl, hflagged⟩
      · rw [hfilter]
        exact ⟨rfl, rfl, by simp [SendFilter.evaluate]⟩
    obtain ⟨hsize, hcounter, hflagged'⟩ := hfields
    refine ⟨⟨hsize ▸ hpos, hsize ▸ hle, ?_, ?_, ?_⟩, hsize⟩
    · rw [hsize, hcounter]
      exact hflagged'
    · rw [hsent, hlength]
      exact hc.sent_lt
    · rw [hsize, hcounter, IsBusy, hsent, hlength]
      exact hc.isBusy

/-- Every step keeps the filter steady and its size. -/
theorem Steady.step {c : Channel ℓ π} (hc : c.Steady) (e : ChannelEvent ℓ π) :
    (c.step e).Steady ∧ (c.step e).filter.size = c.filter.size :=
  (c.counting_step e).steady hc

/-- In every state of every run the flag says whether the count is full. -/
theorem Steady.run {c : Channel ℓ π} (hc : c.Steady) (events : List (ChannelEvent ℓ π)) :
    (c.run events).Steady ∧ (c.run events).filter.size = c.filter.size := by
  induction events generalizing c with
  | nil => exact ⟨hc, rfl⟩
  | cons e events ih =>
    obtain ⟨hstep, hsize⟩ := hc.step e
    obtain ⟨hrun, hsize'⟩ := ih hstep
    exact ⟨hrun, hsize'.trans hsize⟩

/-! ## Sends that overlap -/

/-- The starts that are sure to count towards the next flagged one: a full count may be set back. -/
def credit (c : Channel ℓ π) : Nat :=
  if c.filter.counter < c.filter.size then c.filter.counter else 0

/-- Only a flagged start uses up the credit, and every other start adds to it. -/
theorem Counting.credit_le {c c' : Channel ℓ π} {m : Option (Message π)} (h : c.Counting m c')
    (hc : c.Steady) :
    (m = none → c.credit ≤ c'.credit) ∧
    (m.isSome → c'.filter.flagged = false → c.credit + 1 ≤ c'.credit) := by
  cases h with
  | started hfilter =>
    refine ⟨by simp, fun _ hunflagged => ?_⟩
    obtain ⟨hflagged, hcounter⟩ := SendFilter.evaluate_willSend hc.size_le
    -- an unflagged start leaves the count below its size, so it went up by one
    rw [hfilter, ← Bool.not_eq_true, hflagged, Nat.not_le] at hunflagged
    have hlt : c.filter.counter < c.filter.size := Nat.lt_of_succ_lt hunflagged
    rw [credit, credit, hfilter, if_pos hlt, hcounter hlt]
    exact Nat.le_of_eq (if_pos hunflagged).symm
  | dropped hfilter =>
    have hsame : c.credit = c'.credit := by rw [credit, credit, hfilter]
    exact ⟨fun _ => Nat.le_of_eq hsame, by simp⟩
  | completed hfilter =>
    refine ⟨fun _ => ?_, by simp⟩
    rw [credit]
    split
    · next hlt =>
      have hunflagged : ¬c.filter.flagged = true := by
        rw [hc.flagged_iff]
        omega
      have hsame : c'.credit = c.filter.counter := by
        rw [credit, hfilter, SendFilter.hasSend, if_neg hunflagged, if_pos hlt]
      exact Nat.le_of_eq hsame.symm
    · exact Nat.zero_le _
  | apart hfilter =>
    have hsame : c.credit = c'.credit := by
      rcases hfilter with hfilter | hfilter
      · rw [credit, credit, hfilter]
      · rw [credit, credit, hfilter]
        rfl
    exact ⟨fun _ => Nat.le_of_eq hsame, by simp⟩

/-- Fewer starts than the size are sure to count. -/
theorem credit_lt_size {c : Channel ℓ π} (hc : c.Steady) : c.credit < c.filter.size := by
  have hpos := hc.size_pos
  unfold credit
  split <;> omega

/-- The starts of a run one step on. -/
theorem starts_cons (c : Channel ℓ π) (e : ChannelEvent ℓ π) (events : List (ChannelEvent ℓ π)) :
    c.starts? e = none ∧ c.starts (e :: events) = (c.step e).starts events ∨
    ∃ m, e = .send m ∧ c.starts? e = some m ∧
      c.starts (e :: events) = ⟨c, m⟩ :: (c.step e).starts events := by
  rw [starts]
  cases hm : c.starts? e with
  | none => exact .inl ⟨rfl, rfl⟩
  | some m =>
    refine .inr ⟨m, ?_, rfl, rfl⟩
    cases e with
    | send m' =>
      rw [starts?] at hm
      split at hm
      · rw [Option.some.inj hm]
      · simp at hm
    | _ => simp [starts?] at hm

/-- As long as no start is flagged, the starts and the credit stay below the size. -/
theorem credit_add_lt {c : Channel ℓ π} (hc : c.Steady) {events : List (ChannelEvent ℓ π)} {n : Nat}
    (hn : n ≤ (c.starts events).length)
    (h : ∀ s ∈ (c.starts events).take n, s.channel.filter.flagged = false) :
    c.credit + n < c.filter.size := by
  induction events generalizing c n with
  | nil =>
    obtain rfl : n = 0 := by simpa [starts] using hn
    exact credit_lt_size hc
  | cons e events ih =>
    obtain ⟨hstep, hsize⟩ := hc.step e
    have hcredit := (c.counting_step e).credit_le hc
    rcases starts_cons c e events with ⟨hnone, hstarts⟩ | ⟨m, rfl, hm, hstarts⟩
    · rw [hstarts] at hn h
      have hlt := ih hstep hn h
      have hle := hcredit.1 hnone
      omega
    · cases n with
      | zero => exact credit_lt_size hc
      | succ n =>
        rw [hstarts] at hn h
        rw [List.take_succ_cons, List.forall_mem_cons] at h
        have hlt := ih hstep (Nat.le_of_succ_le_succ hn) h.2
        have hle := hcredit.2 (by simp [hm]) h.1
        omega

/-- Of as many starts in a row as the filter's size, one is flagged. -/
theorem exists_flagged {c : Channel ℓ π} (hc : c.Steady) {events : List (ChannelEvent ℓ π)}
    {j : Nat} (hj : j + c.filter.size ≤ (c.starts events).length) :
    ∃ s ∈ ((c.starts events).drop j).take c.filter.size, s.channel.filter.flagged = true := by
  induction events generalizing c j with
  | nil =>
    have hpos := hc.size_pos
    simp only [starts, List.length_nil] at hj
    omega
  | cons e events ih =>
    obtain ⟨hstep, hsize⟩ := hc.step e
    cases j with
    | zero =>
      by_contra hnone
      have hunflagged : ∀ s ∈ (c.starts (e :: events)).take c.filter.size,
          s.channel.filter.flagged = false := by
        intro s hs
        rw [← Bool.not_eq_true]
        exact fun hflagged => hnone ⟨s, by simpa using hs, hflagged⟩
      have hlt := credit_add_lt hc (by omega) hunflagged
      omega
    | succ j =>
      rcases starts_cons c e events with ⟨-, hstarts⟩ | ⟨m, rfl, -, hstarts⟩
      · rw [hstarts, ← hsize] at hj ⊢
        exact ih hstep hj
      · rw [hstarts, ← hsize] at hj ⊢
        rw [List.drop_succ_cons]
        exact ih hstep (by simp only [List.length_cons] at hj; omega)

/-! ## Sends that do not overlap -/

/-- The count stands where `n` starts that did not overlap left it. -/
def Counted (c : Channel ℓ π) (n : Nat) : Prop :=
  c.filter.counter < c.filter.size ∧ c.filter.counter = n % c.filter.size ∨
  c.filter.counter = c.filter.size ∧ c.filter.size ∣ n

/-- Where no send starts, the count stays where the starts before have left it. -/
theorem Counting.counted {c c' : Channel ℓ π} (h : c.Counting none c') (hc : c.Steady) {n : Nat}
    (hn : c.Counted n) : c'.Counted n := by
  have hflagged := hc.flagged_iff
  unfold Counted at hn ⊢
  cases h with
  | dropped hfilter =>
    rw [hfilter]
    exact hn
  | apart hfilter =>
    rcases hfilter with hfilter | hfilter <;> rw [hfilter]
    · exact hn
    · exact hn
  | completed hfilter =>
    rw [hfilter, SendFilter.hasSend]
    split
    · next hflag =>
      -- the count was full
      rcases hn with ⟨hlt, -⟩ | ⟨-, hdvd⟩
      · exact absurd (hflagged.1 hflag) (Nat.not_le.2 hlt)
      · exact .inl ⟨hc.size_pos, (Nat.mod_eq_zero_of_dvd hdvd).symm⟩
    · exact hn

/-- A send that overlaps no other counts as the next one. -/
theorem Counting.counted_succ {c c' : Channel ℓ π} {m : Message π} (h : c.Counting (some m) c')
    (hc : c.Steady) (hnone : c.underWay = []) {n : Nat} (hn : c.Counted n) :
    c'.Counted (n + 1) ∧ (c'.filter.flagged = true ↔ c.filter.size ∣ n + 1) := by
  have hlt : c.filter.counter < c.filter.size :=
    Nat.not_le.1 fun hfull => not_isBusy hnone (hc.isBusy hfull)
  have hmod : c.filter.counter = n % c.filter.size := by
    rcases hn with ⟨-, hmod⟩ | ⟨hfull, -⟩
    · exact hmod
    · omega
  -- a whole number of rounds lies behind the count
  have hn : n + 1 = c.filter.size * (n / c.filter.size) + (c.filter.counter + 1) := by
    have hdiv := Nat.div_add_mod n c.filter.size
    omega
  have hdvd : c.filter.size ∣ n + 1 ↔ c.filter.size ∣ c.filter.counter + 1 := by
    rw [hn]
    exact Nat.dvd_add_right (Nat.dvd_mul_right _ _)
  cases h with
  | started hfilter =>
    obtain ⟨hflagged, hcounter⟩ := SendFilter.evaluate_willSend hc.size_le
    rw [hfilter, Counted, hfilter, hflagged, hcounter hlt, hdvd]
    show (c.filter.counter + 1 < c.filter.size ∧ c.filter.counter + 1 = (n + 1) % c.filter.size ∨
      c.filter.counter + 1 = c.filter.size ∧ c.filter.size ∣ n + 1) ∧ _
    by_cases hfull : c.filter.counter + 1 = c.filter.size
    · rw [hdvd, hfull]
      exact ⟨.inr ⟨rfl, Nat.dvd_refl _⟩, by simp⟩
    · have hlt' : c.filter.counter + 1 < c.filter.size := by omega
      refine ⟨.inl ⟨hlt', ?_⟩, iff_of_false (Nat.not_le.2 hlt') ?_⟩
      · rw [hn, Nat.mul_add_mod, Nat.mod_eq_of_lt hlt']
      · exact Nat.not_dvd_of_pos_of_lt (Nat.succ_pos _) hlt'

/-- Of the starts that overlap no other, every one is flagged whose number the size divides. -/
theorem flagged_iff_dvd {c : Channel ℓ π} (hc : c.Steady) {events : List (ChannelEvent ℓ π)}
    (halone : ∀ s ∈ c.starts events, s.found.underWay = []) {n : Nat} (hn : c.Counted n) {j : Nat}
    {s : Start ℓ π} (hs : (c.starts events)[j]? = some s) :
    s.channel.filter.flagged = true ↔ c.filter.size ∣ n + j + 1 := by
  induction events generalizing c n j with
  | nil => simp [starts] at hs
  | cons e events ih =>
    obtain ⟨hstep, hsize⟩ := hc.step e
    have hcounting := c.counting_step e
    rcases starts_cons c e events with ⟨hnone, hstarts⟩ | ⟨m, rfl, hm, hstarts⟩
    · rw [hstarts] at halone hs
      rw [hnone] at hcounting
      rw [← hsize]
      exact ih hstep halone (hcounting.counted hc hn) hs
    · rw [hstarts] at halone hs
      rw [List.forall_mem_cons] at halone
      rw [hm] at hcounting
      obtain ⟨hcounted, hflagged⟩ := hcounting.counted_succ hc halone.1 hn
      cases j with
      | zero =>
        obtain rfl : ⟨c, m⟩ = s := by simpa using hs
        exact hflagged
      | succ j =>
        have hnumber : n + 1 + j + 1 = n + (j + 1) + 1 := by omega
        rw [ih hstep halone.2 hcounted hs, hsize, hnumber]

/-! ## The starts of a run -/

/-- Whatever happens on a channel, `n` being the size of its filter: while the sends that start on
it do not overlap, those that come at a multiple of `n` select the rate-limited consumers that ask
for them, and the others select none. However the sends overlap, one of any `n` that start one after
the other is flagged, and selects all that ask for it. And while no send is under way, the count is
below `n`. -/
theorem rate_limit (queueSize : Nat) (filterSize : UInt32) (events : List (ChannelEvent ℓ π)) :
    let c : Channel ℓ π := empty queueSize filterSize.toNat
    let n := max filterSize.toNat 1
    ((∀ s ∈ c.starts events, s.found.underWay = []) →
      ∀ j s, (c.starts events)[j]? = some s → ∀ i, s.Matches i → (i ∈ s.selected ↔ n ∣ j + 1)) ∧
    (∀ j, j + n ≤ (c.starts events).length →
      ∃ s ∈ ((c.starts events).drop j).take n, s.channel.filter.flagged = true ∧
        ∀ i, s.Matches i → i ∈ s.selected) ∧
    ((c.run events).underWay = [] → (c.run events).filter.counter < n) := by
  intro c n
  have hlimit : filterSize.toNat ≤ SendFilter.counterLimit := by
    have hlt := filterSize.toNat_lt
    show filterSize.toNat ≤ 2 ^ 32 - 1
    omega
  have hc : c.Steady := steady_empty queueSize hlimit
  have hcounted : c.Counted 0 := .inl ⟨hc.size_pos, (Nat.zero_mod _).symm⟩
  refine ⟨fun halone j s hs i hmatches => ?_, fun j hj => ?_, fun hnone => ?_⟩
  · have hrunning := running_of_mem_starts (List.mem_of_getElem? hs)
    rw [Start.mem_selected hrunning hmatches, flagged_iff_dvd hc halone hcounted hs, Nat.zero_add]
    rfl
  · obtain ⟨s, hs, hflagged⟩ := exists_flagged hc hj
    have hrunning := running_of_mem_starts (List.mem_of_mem_drop (List.mem_of_mem_take hs))
    exact ⟨s, hs, hflagged, fun i hi => (Start.mem_selected hrunning hi).2 hflagged⟩
  · obtain ⟨hrun, hsize⟩ := hc.run events
    have hlt : (c.run events).filter.counter < (c.run events).filter.size :=
      Nat.not_le.1 fun hfull => not_isBusy hnone (hrun.isBusy hfull)
    rw [hsize] at hlt
    exact hlt

/-- The third send completes only after the fourth has started, and the second flagged one is the
fourth all the same. -/
example :
    let send (n : Nat) : ChannelEvent String Nat := .send ⟨⟨"BTC/USDT", none⟩, n⟩
    ((empty 4 2 : Channel String Nat).starts
      [.subscribe "every" {}, .subscribe "limited" { rateLimited := true }, send 1, .advance 0,
        .advance 0, send 2, .advance 1, .advance 1, .lookup ⟨"ETH/USDT", none⟩, .advance 1, send 3,
        send 4, .advance 2, .advance 2]).map (·.selected) = [[0], [0, 1], [0], [0, 1]] := by
  decide +kernel

end Channel

end MarketEngine
