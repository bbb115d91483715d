import MarketEngine.Proofs.Trading.Solvency
import Mathlib.Data.List.TakeWhile
/-!
# Fill accounting

A fill is refused exactly where the amount that it takes is not there, and then nothing moves. A
fill that goes through writes the entries of the base and the quote currency of its symbol and no
other (`Portfolio.applyFill_writes`). With exact amounts, each balance changes by what the fill does
to the base currency, if it is that, and by what the fill does to the quote currency, if it is that
(`Portfolio.balance_applyFill`), so that at the price of the fill the two are worth the fee less
than before.
-/

namespace MarketEngine

/-! ## The currencies of a symbol -/

namespace Symbol

/-- A symbol is split at its first slash. -/
theorem currencies_of_slash {base : String} (hbase : '/' ∉ base.toList) (quote : String) :
    currencies (base ++ "/" ++ quote) = (base, quote) := by
  have hpass : ∀ c ∈ base.toList, (decide (c ≠ '/')) = true := by
    intro c hc
    exact decide_eq_true fun hslash => hbase (hslash ▸ hc)
  have hdrop : (base ++ "/" ++ quote).toList.dropWhile (· ≠ '/') = '/' :: quote.toList := by
    rw [String.toList_append, String.toList_append, List.append_assoc,
      List.dropWhile_append_of_pos hpass]
    rfl
  have htake : (base ++ "/" ++ quote).toList.takeWhile (· ≠ '/') = base.toList := by
    rw [String.toList_append, String.toList_append, List.append_assoc,
      List.takeWhile_append_of_pos hpass]
    exact List.append_nil _
  rw [currencies, Text.splitFirst, hdrop, htake]
  simp

/-- A symbol without a slash is a base currency with no name for the quote. -/
theorem currencies_of_no_slash {s : Symbol} (h : '/' ∉ s.toList) : currencies s = (s, "") := by
  have hdrop : s.toList.dropWhile (· ≠ '/') = [] := by
    rw [List.dropWhile_eq_nil_iff]
    intro c hc
    exact decide_eq_true fun hslash => h (hslash ▸ hc)
  rw [currencies, Text.splitFirst, hdrop]

end Symbol

namespace Portfolio

/-! ## What a fill takes -/

section

variable {α : Type} [Amount α]

/-- The currency that a fill takes money out of. -/
def paidIn (symbol : Symbol) : Side → Currency
  | .buy => symbol.quote
  | .sell => symbol.base

/-- How much a fill takes out of that currency. -/
def outlay (price quantity fee : α) : Side → α
  | .buy => price * quantity + fee
  | .sell => quantity

/-- A fill that cannot be paid is refused, and the refusal says what is needed and what there is. -/
theorem applyFill_of_short {p : Portfolio α} {symbol : Symbol} {side : Side}
    {price quantity fee : α}
    (h : p.balance (paidIn symbol side) < outlay price quantity fee side) :
    p.applyFill symbol side price quantity fee
      = .error (.insufficientFunds (paidIn symbol side) (outlay price quantity fee side)
          (p.balance (paidIn symbol side))) := by
  cases side with
  | buy => exact if_pos h
  | sell => exact if_pos h

/-- The portfolio after a fill that can be paid for: what the fill takes is written first, and what
it brings in then. -/
def moved (p : Portfolio α) (symbol : Symbol) (price quantity fee : α) : Side → Portfolio α
  | .buy =>
    let paid := p.setBalance symbol.quote (p.balance symbol.quote - (price * quantity + fee))
    paid.setBalance symbol.base (paid.balance symbol.base + quantity)
  | .sell =>
    let paid := p.setBalance symbol.base (p.balance symbol.base - quantity)
    paid.setBalance symbol.quote (paid.balance symbol.quote + (price * quantity - fee))

/-- A fill that can be paid moves the money. -/
theorem applyFill_of_funded {p : Portfolio α} {symbol : Symbol} {side : Side}
    {price quantity fee : α}
    (h : ¬ p.balance (paidIn symbol side) < outlay price quantity fee side) :
    p.applyFill symbol side price quantity fee = .ok (p.moved symbol price quantity fee side) := by
  cases side with
  | buy => exact if_neg h
  | sell => exact if_neg h

/-- A fill that goes through has moved the money, and done nothing else. -/
theorem moved_of_applyFill {p p' : Portfolio α} {symbol : Symbol} {side : Side}
    {price quantity fee : α} (h : p.applyFill symbol side price quantity fee = .ok p') :
    p.moved symbol price quantity fee side = p' := by
  by_cases hshort : p.balance (paidIn symbol side) < outlay price quantity fee side
  · rw [applyFill_of_short hshort] at h
    cases h
  · rw [applyFill_of_funded hshort] at h
    exact Except.ok.inj h

/-- A fill is refused for lack of funds and for nothing else. -/
theorem applyFill_eq_error_iff {p : Portfolio α} {symbol : Symbol} {side : Side}
    {price quantity fee : α} {e : EngineError α} :
    p.applyFill symbol side price quantity fee = .error e ↔
      p.balance (paidIn symbol side) < outlay price quantity fee side ∧
        e = .insufficientFunds (paidIn symbol side) (outlay price quantity fee side)
          (p.balance (paidIn symbol side)) := by
  by_cases hshort : p.balance (paidIn symbol side) < outlay price quantity fee side
  · rw [applyFill_of_short hshort, Except.error.injEq]
    exact ⟨fun he => ⟨hshort, he.symm⟩, fun he => he.2.symm⟩
  · rw [applyFill_of_funded hshort]
    exact ⟨fun he => (nomatch he), fun he => absurd he.1 hshort⟩

omit [Amount α] in
/-- A balance that is set is found, and the others are as they were. -/
theorem get?_setBalance (p : Portfolio α) (c c' : Currency) (x : α) :
    (p.setBalance c x).balances.get? c' = if c' = c then some x else p.balances.get? c' := by
  simp only [setBalance, Table.get?_put, beq_iff_eq]

/-- A fill writes the entries of its two currencies and no other. -/
theorem applyFill_writes {p p' : Portfolio α} {symbol : Symbol} {side : Side}
    {price quantity fee : α} (h : p.applyFill symbol side price quantity fee = .ok p')
    (c : Currency) :
    (c ≠ symbol.base → c ≠ symbol.quote → p'.balances.get? c = p.balances.get? c) ∧
      (c = symbol.base ∨ c = symbol.quote → ∃ x, p'.balances.get? c = some x) := by
  obtain rfl := moved_of_applyFill h
  cases side with
  | buy =>
    simp only [moved, get?_setBalance]
    grind
  | sell =>
    simp only [moved, get?_setBalance]
    grind

/-- A turn whose fill cannot be paid for leaves the desk as it is. -/
theorem desk_turn_of_short {pass : MatchingPass α} {replayed : Bool} {window : List (Trade α)}
    {handle : Nat} {o : Order α} {price : α} (ho : pass.desk.orders.at? handle = some o)
    (hprice : o.decision replayed window = some price)
    (hshort : pass.desk.portfolio.balance (paidIn o.symbol o.side)
      < outlay price o.quantity (o.feeAt pass.desk.fees price).cost o.side) :
    (pass.turn replayed window handle).1.desk = pass.desk := by
  unfold MatchingPass.turn
  simp only [ho, Desk.charge, hprice, applyFill_of_short hshort]
  split
  · rfl
  · split
    · rfl
    · rfl

end

/-! ## What a fill comes to -/

/-- What a fill adds to the base currency. -/
def baseChange (quantity : ℚ) : Side → ℚ
  | .buy => quantity
  | .sell => -quantity

/-- What a fill adds to the quote currency. -/
def quoteChange (price quantity fee : ℚ) : Side → ℚ
  | .buy => -(price * quantity + fee)
  | .sell => price * quantity - fee

/-- Whatever its side, a fill costs its fee: the value only changes its currency. -/
theorem worth_of_changes (price quantity fee : ℚ) (side : Side) :
    price * baseChange quantity side + quoteChange price quantity fee side = -fee := by
  cases side <;> simp only [baseChange, quoteChange] <;> ring

/-- A fill adds what it should to the base currency and to the quote currency, also if they are the
same one. -/
theorem balance_applyFill {p p' : Portfolio ℚ} {symbol : Symbol} {side : Side}
    {price quantity fee : ℚ} (h : p.applyFill symbol side price quantity fee = .ok p')
    (c : Currency) :
    p'.balance c = p.balance c + (if c = symbol.base then baseChange quantity side else 0)
      + (if c = symbol.quote then quoteChange price quantity fee side else 0) := by
  obtain rfl := moved_of_applyFill h
  -- The second write reads what the first has left, which matters where the currencies are one.
  cases side with
  | buy =>
    simp only [moved, balance_setBalance, baseChange, quoteChange]
    split_ifs <;> simp_all <;> ring
  | sell =>
    simp only [moved, balance_setBalance, baseChange, quoteChange]
    split_ifs <;> simp_all <;> ring

/-- **A fill is all or nothing, and costs its fee.** -/
theorem applyFill_accounts :
    (∀ {α : Type} [Amount α] (p : Portfolio α) (symbol : Symbol) (side : Side)
        (price quantity fee : α),
      (∀ e, p.applyFill symbol side price quantity fee = .error e ↔
        p.balance (paidIn symbol side) < outlay price quantity fee side ∧
          e = .insufficientFunds (paidIn symbol side) (outlay price quantity fee side)
            (p.balance (paidIn symbol side))) ∧
      (¬ p.balance (paidIn symbol side) < outlay price quantity fee side →
        ∃ p', p.applyFill symbol side price quantity fee = .ok p' ∧ ∀ c,
          (c ≠ symbol.base → c ≠ symbol.quote → p'.balances.get? c = p.balances.get? c) ∧
          (c = symbol.base ∨ c = symbol.quote → ∃ x, p'.balances.get? c = some x))) ∧
    (∀ {α : Type} [Amount α] (pass : MatchingPass α) (replayed : Bool) (window : List (Trade α))
        (handle : Nat) (o : Order α) (price : α), pass.desk.orders.at? handle = some o →
      o.decision replayed window = some price →
      pass.desk.portfolio.balance (paidIn o.symbol o.side)
        < outlay price o.quantity (o.feeAt pass.desk.fees price).cost o.side →
      (pass.turn replayed window handle).1.desk = pass.desk) ∧
    ∀ (p p' : Portfolio ℚ) (symbol : Symbol) (side : Side) (price quantity fee : ℚ),
      p.applyFill symbol side price quantity fee = .ok p' →
      (∀ c, p'.balance c = p.balance c
        + (if c = symbol.base then baseChange quantity side else 0)
        + (if c = symbol.quote then quoteChange price quantity fee side else 0)) ∧
      (symbol.base ≠ symbol.quote →
        price * p'.balance symbol.base + p'.balance symbol.quote
          = price * p.balance symbol.base + p.balance symbol.quote - fee) := by
  refine ⟨fun p symbol side price quantity fee => ⟨fun e => applyFill_eq_error_iff, ?_⟩,
    fun pass replayed window handle o price ho hprice hshort =>
      desk_turn_of_short ho hprice hshort, ?_⟩
  · intro hfunded
    exact ⟨_, applyFill_of_funded hfunded, applyFill_writes (applyFill_of_funded hfunded)⟩
  · intro p p' symbol side price quantity fee h
    refine ⟨balance_applyFill h, fun hne => ?_⟩
    have hbase := balance_applyFill h symbol.base
    have hquote := balance_applyFill h symbol.quote
    rw [if_pos rfl, if_neg hne, add_zero] at hbase
    rw [if_neg hne.symm, if_pos rfl, add_zero] at hquote
    -- at the fill's own price the two changes cancel out, but for the fee
    calc price * p'.balance symbol.base + p'.balance symbol.quote
        = price * p.balance symbol.base + p.balance symbol.quote
            + (price * baseChange quantity side + quoteChange price quantity fee side) := by
          rw [hbase, hquote]
          ring
      _ = price * p.balance symbol.base + p.balance symbol.quote - fee := by
          rw [worth_of_changes]
          ring

/-- Two bitcoins at 100 with a fee of 1/5, bought for a balance that pays for them, and what they
are worth with the rest; a balance of 200 does not pay for them. -/
theorem applyFill_accounts_bitcoins :
    ((⟨[("USDT", 1000)]⟩ : Portfolio ℚ).applyFill "BTC/USDT" .buy 100 2 (1 / 5)
        = .ok ⟨[("USDT", 3999 / 5), ("BTC", 2)]⟩) ∧
      (100 * (⟨[("USDT", 3999 / 5), ("BTC", 2)]⟩ : Portfolio ℚ).balance "BTC"
          + (⟨[("USDT", 3999 / 5), ("BTC", 2)]⟩ : Portfolio ℚ).balance "USDT"
        = 100 * (⟨[("USDT", 1000)]⟩ : Portfolio ℚ).balance "BTC"
          + (⟨[("USDT", 1000)]⟩ : Portfolio ℚ).balance "USDT" - 1 / 5) ∧
      (⟨[("USDT", 200)]⟩ : Portfolio ℚ).applyFill "BTC/USDT" .buy 100 2 (1 / 5)
        = .error (.insufficientFunds "USDT" (1001 / 5) 200) := by
  have hbought : (⟨[("USDT", 1000)]⟩ : Portfolio ℚ).applyFill "BTC/USDT" .buy 100 2 (1 / 5)
      = .ok ⟨[("USDT", 3999 / 5), ("BTC", 2)]⟩ := by
    have hmoved : ((⟨[("USDT", 1000)]⟩ : Portfolio ℚ).moved "BTC/USDT" 100 2 (1 / 5) .buy).balances
        = [("USDT", 3999 / 5), ("BTC", 2)] := by decide +kernel
    rw [applyFill_of_funded (by decide +kernel), ← hmoved]
  refine ⟨hbought, ?_, ?_⟩
  · exact (applyFill_accounts.2.2 _ _ _ _ _ _ _ hbought).2 (by decide)
  · exact ((applyFill_accounts.1 _ _ _ _ _ _).1 _).2 ⟨by decide +kernel, by
      rw [EngineError.insufficientFunds.injEq]
      decide +kernel⟩

end Portfolio

end MarketEngine
