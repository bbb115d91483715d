import MarketEngine.Proofs.Trading.Redelivery
import MarketEngine.Proofs.Trading.TradersAtWork
/-!
# Counterparts that vanish

A matching pass finds out about an order's counterpart on the exchange at the order's turn. The
turns of a pass are listed with the pass as it is when the turn comes (`MatchingPass.turns` for a
pass that goes through at once, `SuspendedPass.turns` for each time a pass goes on). What a pass
misses, and which traders it leaves to refresh themselves, is read off its turns
(`MatchingPass.Stretch`, `SuspendedPass.Since`): those orders that were open at their turn with a
counterpart that no trader of their trader's name knew then. Their turns leave the desk as it is,
and after the last turn each of the traders asks the exchange once (`Desk.counterparts_vanish`).

What the traders know does not change while a pass goes on, but it may while a pass waits for an
order that somebody holds. Such a pass goes by what is known at the turn, not by what was known when
it began (`SuspendedPass.counterpart_appears`).
-/

namespace MarketEngine

variable {α : Type}

/-! ## Names in the order in which they are met -/

/-- Adds a name to those met before, unless it is one of them. -/
def meetName (met : List String) (name : String) : List String :=
  if met.contains name then met else met ++ [name]

/-- Adding a name to those that were met, each of them once, keeps each of them once. -/
theorem meetName_eraseDups (met : List String) (name : String) :
    meetName met.eraseDups name = (met ++ [name]).eraseDups := by
  rw [meetName, List.eraseDups_append]
  by_cases hmet : name ∈ met
  · simp [hmet, List.removeAll]
  · simp [hmet, List.removeAll, List.eraseDups_cons]

namespace MatchingPass

/-! ## What a pass notes -/

/-- What a pass has noted of what it misses: the ids of the orders, and their traders. -/
def noted (p : MatchingPass α) : List String × List String := (p.report.missing, p.toRefresh)

/-- Notes one more order. -/
def note (noted : List String × List String) (o : Order α) : List String × List String :=
  (noted.1 ++ [o.id], meetName noted.2 o.trader)

/-- Of some orders a pass notes all ids, and every trader where it is first met. -/
theorem foldl_note (orders : List (Order α)) :
    orders.foldl note ([], []) = (orders.map (·.id), (orders.map (·.trader)).eraseDups) := by
  have hnoted : ∀ (orders : List (Order α)) (ids met : List String),
      orders.foldl note (ids, met.eraseDups)
        = (ids ++ orders.map (·.id), (met ++ orders.map (·.trader)).eraseDups) := by
    intro orders
    induction orders with
    | nil => simp
    | cons o rest ih =>
      intro ids met
      rw [List.foldl_cons, note, meetName_eraseDups, ih]
      simp
  exact hnoted orders [] []

/-- The order whose turn it is, if it is open and its counterpart has vanished. -/
def vanished? (p : MatchingPass α) (handle : Nat) : Option (Order α) :=
  (p.desk.orders.at? handle).filter fun o => o.isOpen && p.desk.isMissing o

/-- Whether an order is found vanished is decided by itself and by what its trader knows. -/
theorem vanished?_of_at? {p : MatchingPass α} {handle : Nat} {o : Order α}
    (ho : p.desk.orders.at? handle = some o) :
    p.vanished? handle = if o.isOpen && p.desk.isMissing o then some o else none := by
  rw [vanished?, ho, Option.filter_some]

/-- An order has vanished if it is open and has a counterpart on the exchange that no trader of its
trader's name knows. -/
theorem vanished?_eq_some {p : MatchingPass α} {handle : Nat} {o : Order α} :
    p.vanished? handle = some o ↔ p.desk.orders.at? handle = some o ∧ o.status = .opened ∧
      ∃ id, o.exchangeId = some id ∧
        ∀ t, p.desk.trader? o.trader = some t → t.knows id = false := by
  have hmissing : p.desk.isMissing o = true ↔ ∃ id, o.exchangeId = some id ∧
      ∀ t, p.desk.trader? o.trader = some t → t.knows id = false := by
    unfold Desk.isMissing
    cases o.exchangeId with
    | none => simp
    | some id => cases p.desk.trader? o.trader <;> simp
  rw [vanished?, Option.filter_eq_some_iff, Bool.and_eq_true, hmissing, Order.isOpen_iff]

/-- The orders that are found vanished in some turns. -/
def vanished (turns : List (MatchingPass α × Nat)) : List (Order α) :=
  turns.filterMap fun turn => turn.1.vanished? turn.2

/-- What vanished in some turns and then in others. -/
theorem vanished_append (turns turns' : List (MatchingPass α × Nat)) :
    vanished (turns ++ turns') = vanished turns ++ vanished turns' := List.filterMap_append

/-- Canceling in turn cancels some of the orders. -/
theorem exists_cancelInTurn (p : MatchingPass α) (ids : List String) :
    ∃ canceled : List String, (p.cancelInTurn ids).1 = canceled.foldl cancelLinked p := by
  induction ids generalizing p with
  | nil => exact ⟨[], rfl⟩
  | cons id rest ih =>
    rw [cancelInTurn]
    split
    · exact ⟨[], rfl⟩
    · obtain ⟨canceled, hcanceled⟩ := ih (p.cancelLinked id)
      exact ⟨id :: canceled, hcanceled⟩

/-- While some turns were taken one pass became the other. What it noted is what vanished in them,
and what the traders know stayed the same throughout. -/
structure Stretch (p : MatchingPass α) (turns : List (MatchingPass α × Nat))
    (p' : MatchingPass α) : Prop where
  noted_eq : p'.noted = (vanished turns).foldl note p.noted
  knowledge_eq : p'.desk.traders.map Trader.knowledge = p.desk.traders.map Trader.knowledge
  known : ∀ turn ∈ turns,
    turn.1.desk.traders.map Trader.knowledge = p.desk.traders.map Trader.knowledge

/-- Without a turn nothing is noted. -/
theorem Stretch.refl (p : MatchingPass α) : p.Stretch [] p := ⟨rfl, rfl, List.forall_mem_nil _⟩

/-- Two stretches in a row note first what vanished in the one, then what vanished in the other. -/
theorem Stretch.trans {p p' p'' : MatchingPass α} {turns turns' : List (MatchingPass α × Nat)}
    (h : p.Stretch turns p') (h' : p'.Stretch turns' p'') : p.Stretch (turns ++ turns') p'' where
  noted_eq := by rw [h'.noted_eq, h.noted_eq, vanished_append, List.foldl_append]
  knowledge_eq := h'.knowledge_eq.trans h.knowledge_eq
  known := List.forall_mem_append.2
    ⟨h.known, fun turn hturn => (h'.known turn hturn).trans h.knowledge_eq⟩

/-- Cancellations take no turn and note nothing. -/
theorem stretch_foldl_cancelLinked (p : MatchingPass α) (ids : List String) :
    p.Stretch [] (ids.foldl cancelLinked p) where
  noted_eq := by
    obtain ⟨-, hmissing, hrefresh⟩ := noted_foldl_cancelLinked p ids
    rw [noted, hmissing, hrefresh]
    rfl
  knowledge_eq := (frame_foldl_cancelLinked p ids).knowledge_eq
  known := List.forall_mem_nil _

/-- Cancellations that stop at an order that is held take no turn and note nothing. -/
theorem stretch_cancelInTurn (p : MatchingPass α) (ids : List String) :
    p.Stretch [] (p.cancelInTurn ids).1 := by
  obtain ⟨canceled, hcanceled⟩ := p.exists_cancelInTurn ids
  rw [hcanceled]
  exact p.stretch_foldl_cancelLinked canceled

/-! ## Turns -/

variable [Amount α] (replayed : Bool) (window : List (Trade α))

/-- In its turn an order is noted if and only if it has vanished. -/
theorem noted_turn (p : MatchingPass α) (handle : Nat) :
    (p.turn replayed window handle).1.noted = (p.vanished? handle).toList.foldl note p.noted := by
  have hturn := turn_spec replayed window p handle
  generalize p.turn replayed window handle = r at hturn ⊢
  cases hturn with
  | absent hnone => simp [vanished?, hnone]
  | closed ho hclosed => simp [vanished?_of_at? ho, hclosed]
  | missing ho hopen hmissing =>
    rw [vanished?_of_at? ho, hopen, hmissing]
    rfl
  | untriggered ho _ hknown => simp [vanished?_of_at? ho, hknown]
  | rejected ho _ hknown => simp [vanished?_of_at? ho, hknown]
  | filled ho _ hknown => simp [vanished?_of_at? ho, hknown, noted, filling, noteFill]

/-- A turn notes its own order if that has vanished, and teaches no trader anything. -/
theorem stretch_turn (p : MatchingPass α) (handle : Nat) :
    p.Stretch [(p, handle)] (p.turn replayed window handle).1 where
  noted_eq := by
    rw [noted_turn, vanished, List.filterMap_cons, List.filterMap_nil]
    cases p.vanished? handle <;> rfl
  knowledge_eq := (frame_turn replayed window p handle).knowledge_eq
  known := by simp

/-- The turn of an order whose counterpart has vanished leaves the desk as it is. -/
theorem turn_of_vanished {p : MatchingPass α} {handle : Nat} {o : Order α}
    (h : p.vanished? handle = some o) : p.turn replayed window handle = (p.miss o, []) := by
  rw [vanished?, Option.filter_eq_some_iff, Bool.and_eq_true] at h
  obtain ⟨ho, hopen, hmissing⟩ := h
  simp [turn, ho, hopen, hmissing]

/-- The turn of an order changes no other order. -/
theorem at?_turn_of_ne (p : MatchingPass α) {handle other : Nat} (hne : other ≠ handle) :
    (p.turn replayed window handle).1.desk.orders.at? other = p.desk.orders.at? other := by
  have hturn := turn_spec replayed window p handle
  generalize p.turn replayed window handle = r at hturn ⊢
  cases hturn with
  | filled =>
    rw [filling, noteFill, Desk.orders_modifyTrader, OrderStore.at?_modify, if_neg (Ne.symm hne)]
  | _ => rfl

/-! ### At once -/

/-- The turns of some orders, each with the pass as it is when the turn comes. -/
def turns (p : MatchingPass α) : List Nat → List (MatchingPass α × Nat)
  | [] => []
  | handle :: rest => (p, handle) :: (p.visit replayed window handle).turns rest

/-- Each order has its turn, in the order of the pass. -/
theorem map_turns (p : MatchingPass α) (handles : List Nat) :
    (p.turns replayed window handles).map (·.2) = handles := by
  induction handles generalizing p with
  | nil => rfl
  | cons handle rest ih => rw [turns, List.map_cons, ih]

/-- A pass that goes through at once notes what vanished at each turn. -/
theorem stretch_turns (p : MatchingPass α) (handles : List Nat) :
    p.Stretch (p.turns replayed window handles) (handles.foldl (visit replayed window) p) := by
  induction handles generalizing p with
  | nil => exact .refl p
  | cons handle rest ih =>
    have hvisit := (p.stretch_turn replayed window handle).trans
      ((p.turn replayed window handle).1.stretch_foldl_cancelLinked
        (p.turn replayed window handle).2)
    exact hvisit.trans (ih (p.visit replayed window handle))

/-- An order whose turn does not come is not filled. -/
theorem filled_of_filled_visit (p : MatchingPass α) {handle other : Nat} (hne : other ≠ handle)
    (hfilled : (p.visit replayed window handle).desk.orders.status? other = some .filled) :
    p.desk.orders.status? other = some .filled := by
  have hsame := p.at?_turn_of_ne replayed window hne
  have hcancels := unfilled_foldl_cancelLinked (p.turn replayed window handle).1
    (p.turn replayed window handle).2
  obtain ⟨o', ho', -⟩ := OrderStore.status?_eq_some.1 hfilled
  obtain ⟨o, ho, -, -⟩ :=
    (frame_foldl_cancelLinked (p.turn replayed window handle).1 _).exists_before ho'
  rw [hsame] at ho
  exact OrderStore.status?_eq_some.2 ⟨o, ho, hcancels.status_eq (hsame ▸ ho) hfilled⟩

/-- An order is filled in its own turn only. -/
theorem filled_of_filled_visits (p : MatchingPass α) {handles : List Nat} {other : Nat}
    (hother : other ∉ handles)
    (hfilled : (handles.foldl (visit replayed window) p).desk.orders.status? other
      = some .filled) :
    p.desk.orders.status? other = some .filled := by
  induction handles generalizing p with
  | nil => exact hfilled
  | cons handle rest ih =>
    obtain ⟨hne, hrest⟩ := not_or.1 (List.mem_cons.not.1 hother)
    exact p.filled_of_filled_visit replayed window hne
      (ih (p.visit replayed window handle) hrest hfilled)

/-- An order whose counterpart vanished before its turn is not filled. -/
theorem not_filled_of_vanished (p : MatchingPass α) {handles : List Nat} (hnodup : handles.Nodup)
    {turn : MatchingPass α × Nat} (hturn : turn ∈ p.turns replayed window handles) {o : Order α}
    (ho : turn.1.vanished? turn.2 = some o) :
    (handles.foldl (visit replayed window) p).desk.orders.status? turn.2 ≠ some .filled := by
  induction handles generalizing p with
  | nil => simp [turns] at hturn
  | cons handle rest ih =>
    obtain ⟨hhandle, hnodup⟩ := List.nodup_cons.1 hnodup
    rcases List.mem_cons.1 hturn with rfl | hrest
    · intro hfilled
      have hfirst := filled_of_filled_visits replayed window _ hhandle hfilled
      rw [visit, turn_of_vanished replayed window ho] at hfirst
      obtain ⟨hat, hopen, -⟩ := vanished?_eq_some.1 ho
      obtain ⟨o', ho', hstatus⟩ := OrderStore.status?_eq_some.1 hfirst
      obtain rfl := Option.some.inj (hat.symm.trans ho')
      exact OrderStatus.noConfusion (hopen.symm.trans hstatus)
    · exact ih _ hnodup hrest

/-! ### Until an order is held -/

/-- The turns of some orders until one is held, each with the pass as it is when the turn comes. -/
def turnsInTurn (p : MatchingPass α) : List Nat → List (MatchingPass α × Nat)
  | [] => []
  | handle :: rest =>
    if p.desk.orders.isHeld handle then []
    else
      let (p', linked) := p.turn replayed window handle
      (p, handle) :: match p'.cancelInTurn linked with
        | (p', []) => p'.turnsInTurn rest
        | _ => []

/-- A turn has come or is left. -/
theorem map_turnsInTurn (p : MatchingPass α) (handles : List Nat) :
    (p.turnsInTurn replayed window handles).map (·.2)
      ++ (p.visitInTurn replayed window handles).2.1 = handles := by
  induction handles generalizing p with
  | nil => rfl
  | cons handle rest ih =>
    rw [turnsInTurn, visitInTurn]
    split
    · rfl
    · rcases hcancel : (p.turn replayed window handle).1.cancelInTurn
        (p.turn replayed window handle).2 with ⟨p', left⟩
      cases left with
      | nil => simp only [hcancel, List.map_cons, List.cons_append, ih p']
      | cons id left => simp only [hcancel, List.map_cons, List.map_nil, List.cons_append,
          List.nil_append]

/-- Also a pass that stops at a held order notes what vanished at each turn that was taken. -/
theorem stretch_visitInTurn (p : MatchingPass α) (handles : List Nat) :
    p.Stretch (p.turnsInTurn replayed window handles)
      (p.visitInTurn replayed window handles).1 := by
  induction handles generalizing p with
  | nil => exact .refl p
  | cons handle rest ih =>
    rw [turnsInTurn, visitInTurn]
    split
    · exact .refl p
    · have hturn := (p.stretch_turn replayed window handle).trans
        ((p.turn replayed window handle).1.stretch_cancelInTurn
          (p.turn replayed window handle).2)
      rcases hcancel : (p.turn replayed window handle).1.cancelInTurn
        (p.turn replayed window handle).2 with ⟨p', left⟩
      rw [hcancel] at hturn
      cases left with
      | nil =>
        simp only [hcancel]
        exact hturn.trans (ih p')
      | cons id left =>
        simp only [hcancel]
        exact hturn

end MatchingPass

/-- What is picked and what is left are some of the orders, and an order that is neither is not
open. -/
theorem OrderStore.pickInTurn_spec (s : OrderStore α) (handles : List Nat) :
    ((s.pickInTurn handles).1 ++ (s.pickInTurn handles).2).Sublist handles ∧
    ∀ handle ∈ handles, handle ∈ (s.pickInTurn handles).1 ++ (s.pickInTurn handles).2 ∨
      (s.at? handle).any (·.isOpen) = false := by
  induction handles with
  | nil => exact ⟨.slnil, List.forall_mem_nil _⟩
  | cons handle rest ih =>
    obtain ⟨hsublist, hfound⟩ := ih
    rw [pickInTurn]
    split
    · exact ⟨.refl _, fun other hother => .inl hother⟩
    · by_cases hopen : (s.at? handle).any (·.isOpen) = true
      · simp only [hopen, if_true, List.cons_append]
        refine ⟨hsublist.cons_cons handle, fun other hother => ?_⟩
        rcases List.mem_cons.1 hother with rfl | hrest
        · exact .inl List.mem_cons_self
        · exact (hfound other hrest).imp_left (List.mem_cons_of_mem _)
      · simp only [hopen, Bool.false_eq_true, if_false]
        refine ⟨hsublist.cons handle, fun other hother => ?_⟩
        rcases List.mem_cons.1 hother with rfl | hrest
        · exact .inr (Bool.eq_false_iff.2 hopen)
        · exact hfound other hrest

namespace SuspendedPass

/-! ## Passes that wait -/

def noted (w : SuspendedPass α) : List String × List String := (w.report.missing, w.toRefresh)

/-- No turn was taken before all orders were looked at, and so nothing is to be canceled. -/
def IsOrderly (w : SuspendedPass α) : Prop := w.unseen = [] ∨ w.toCancel = []

variable [Amount α]

/-- The turns that come when a pass goes on. -/
def turns (w : SuspendedPass α) (d : Desk α) : List (MatchingPass α × Nat) :=
  let (p, toCancel) := (w.takeUp d).cancelInTurn w.toCancel
  let (picked, unseen) := p.desk.orders.pickInTurn w.unseen
  if toCancel.isEmpty && unseen.isEmpty then
    p.turnsInTurn w.replayed w.window (w.ahead ++ picked)
  else []

/-- While a pass was taken up at some desks it came to some turns, and what is left of it knows what
vanished in them. Every order that was ahead or unseen had its turn, or is so still, or was not open
at one of the desks. -/
structure Since (w : SuspendedPass α) (desks : List (Desk α))
    (turns : List (MatchingPass α × Nat)) (w' : SuspendedPass α) : Prop where
  replayed_eq : w'.replayed = w.replayed
  window_eq : w'.window = w.window
  orderly : w'.IsOrderly
  noted_eq : w'.noted = (MatchingPass.vanished turns).foldl MatchingPass.note w.noted
  known : ∀ turn ∈ turns, ∃ d ∈ desks,
    turn.1.desk.traders.map Trader.knowledge = d.traders.map Trader.knowledge
  sublist : (turns.map (·.2) ++ (w'.ahead ++ w'.unseen)).Sublist (w.ahead ++ w.unseen)
  found : ∀ handle ∈ w.ahead ++ w.unseen,
    handle ∈ turns.map (·.2) ++ (w'.ahead ++ w'.unseen) ∨
      ∃ d ∈ desks, (d.orders.at? handle).any (·.isOpen) = false

omit [Amount α] in
/-- A pass that was not taken up knows nothing new. -/
theorem Since.refl {w : SuspendedPass α} (h : w.IsOrderly) : w.Since [] [] w where
  replayed_eq := rfl
  window_eq := rfl
  orderly := h
  noted_eq := rfl
  known := List.forall_mem_nil _
  sublist := .refl _
  found _ hhandle := .inl hhandle

omit [Amount α] in
/-- A pass that is taken up again goes on from what it knew, with the orders that were left. -/
theorem Since.trans {w w' w'' : SuspendedPass α} {desks desks' : List (Desk α)}
    {turns turns' : List (MatchingPass α × Nat)} (h : w.Since desks turns w')
    (h' : w'.Since desks' turns' w'') : w.Since (desks ++ desks') (turns ++ turns') w'' where
  replayed_eq := h'.replayed_eq.trans h.replayed_eq
  window_eq := h'.window_eq.trans h.window_eq
  orderly := h'.orderly
  noted_eq := by
    rw [h'.noted_eq, h.noted_eq, MatchingPass.vanished_append, List.foldl_append]
  known turn hturn := by
    rcases List.mem_append.1 hturn with hfirst | hsecond
    · obtain ⟨d, hd, heq⟩ := h.known turn hfirst
      exact ⟨d, List.mem_append_left _ hd, heq⟩
    · obtain ⟨d, hd, heq⟩ := h'.known turn hsecond
      exact ⟨d, List.mem_append_right _ hd, heq⟩
  sublist := by
    rw [List.map_append, List.append_assoc]
    exact (h'.sublist.append_left _).trans h.sublist
  found handle hhandle := by
    rw [List.map_append, List.append_assoc]
    rcases h.found handle hhandle with hmem | ⟨d, hd, hclosed⟩
    · rcases List.mem_append.1 hmem with hturn | hleft
      · exact .inl (List.mem_append_left _ hturn)
      · rcases h'.found handle hleft with hmem' | ⟨d, hd, hclosed⟩
        · exact .inl (List.mem_append_right _ hmem')
        · exact .inr ⟨d, List.mem_append_right _ hd, hclosed⟩
    · exact .inr ⟨d, List.mem_append_left _ hd, hclosed⟩

/-- When a pass goes on, what is left of it knows what the desk's report does. -/
theorem noted_goOn (w : SuspendedPass α) (d : Desk α) :
    (w.goOn d).2.noted = (w.goOn d).1.noted := by
  unfold goOn
  simp only
  split <;> rfl

omit [Amount α] in
/-- What an orderly pass finds when it is taken up at a desk: the orders that it picks and those
that it has not come to were ahead or unseen, and what it leaves out is not open on the desk. If it
has orders to cancel first, there are none left to pick. -/
theorem picked_spec {w : SuspendedPass α} (h : w.IsOrderly) (d : Desk α) {p : MatchingPass α}
    {toCancel : List String} {picked unseen : List Nat}
    (hcancels : (w.takeUp d).cancelInTurn w.toCancel = (p, toCancel))
    (hpicks : p.desk.orders.pickInTurn w.unseen = (picked, unseen)) :
    (unseen = [] ∨ toCancel = []) ∧
    (w.ahead ++ (picked ++ unseen)).Sublist (w.ahead ++ w.unseen) ∧
    ∀ handle ∈ w.ahead ++ w.unseen, handle ∈ w.ahead ++ (picked ++ unseen) ∨
      ∃ d' ∈ [d], (d'.orders.at? handle).any (·.isOpen) = false := by
  obtain ⟨hpicked, hfound⟩ := p.desk.orders.pickInTurn_spec w.unseen
  rw [hpicks] at hpicked hfound
  rcases h with hnone | hnone
  · rw [hnone] at hpicks hpicked ⊢
    have hunseen : [] = unseen := (Prod.mk.inj hpicks).2
    refine ⟨.inl hunseen.symm, hpicked.append_left _, fun handle hhandle => .inl ?_⟩
    rw [List.append_nil] at hhandle
    exact List.mem_append_left _ hhandle
  · -- Nothing is canceled before the orders are looked at, which then are as they are on the desk.
    rw [hnone] at hcancels
    obtain ⟨rfl, rfl⟩ := Prod.mk.inj hcancels
    refine ⟨.inr rfl, hpicked.append_left _, fun handle hhandle => ?_⟩
    rcases List.mem_append.1 hhandle with hahead | hunseen
    · exact .inl (List.mem_append_left _ hahead)
    · exact (hfound handle hunseen).imp (List.mem_append_right _)
        fun hclosed => ⟨d, List.mem_singleton_self d, hclosed⟩

/-- Taken up at one desk, a pass comes to the turns up to the next held order. -/
theorem since_goOn {w : SuspendedPass α} (h : w.IsOrderly) (d : Desk α) :
    w.Since [d] (w.turns d) (w.goOn d).2 := by
  have hstretch := (w.takeUp d).stretch_cancelInTurn w.toCancel
  rcases hcancels : (w.takeUp d).cancelInTurn w.toCancel with ⟨p, toCancel⟩
  rcases hpicks : p.desk.orders.pickInTurn w.unseen with ⟨picked, unseen⟩
  rw [hcancels] at hstretch
  obtain ⟨horderly, hsublist, hfound⟩ := picked_spec h d hcancels hpicks
  -- turns come only after all cancellations and all looks
  by_cases hready : (toCancel.isEmpty && unseen.isEmpty) = true
  · have hvisits := hstretch.trans
      (p.stretch_visitInTurn w.replayed w.window (w.ahead ++ picked))
    have hhandles := p.map_turnsInTurn w.replayed w.window (w.ahead ++ picked)
    have hturns : w.turns d = p.turnsInTurn w.replayed w.window (w.ahead ++ picked) := by
      simp [turns, hcancels, hpicks, hready]
    have hleft : (w.goOn d).2 = { w with
        toCancel := (p.visitInTurn w.replayed w.window (w.ahead ++ picked)).2.2
        unseen
        ahead := (p.visitInTurn w.replayed w.window (w.ahead ++ picked)).2.1 }.putDown
          (p.visitInTurn w.replayed w.window (w.ahead ++ picked)).1 := by
      simp [goOn, hcancels, hpicks, hready]
    obtain rfl : unseen = [] := List.isEmpty_iff.1 (Bool.and_eq_true_iff.1 hready).2
    rw [List.append_nil, ← hhandles] at hsublist hfound
    rw [hturns, hleft]
    refine ⟨rfl, rfl, .inl rfl, hvisits.noted_eq,
      fun turn hturn => ⟨d, List.mem_singleton_self d, hvisits.known turn hturn⟩, ?_, ?_⟩
    · simpa only [putDown, List.append_nil] using hsublist
    · simpa only [putDown, List.append_nil] using hfound
  · have hturns : w.turns d = [] := by simp [turns, hcancels, hpicks, hready]
    have hleft : (w.goOn d).2
        = { w with toCancel, unseen, ahead := w.ahead ++ picked }.putDown p := by
      simp [goOn, hcancels, hpicks, hready]
    rw [← List.append_assoc] at hsublist hfound
    rw [hturns, hleft]
    exact ⟨rfl, rfl, horderly, hstretch.noted_eq, List.forall_mem_nil _, hsublist, hfound⟩

variable {σ : Type} [Exchange σ α]

/-- A pass was taken up at some desks in turn, came to some turns, and had to wait each time. -/
inductive Waits : SuspendedPass α → List (Desk α × σ) → List (MatchingPass α × Nat) →
    SuspendedPass α → Prop
  | nil (w : SuspendedPass α) : Waits w [] [] w
  | cons {w w' w'' : SuspendedPass α} {d d' : Desk α} {ex ex' : σ} {visits : List (Desk α × σ)}
    {turns : List (MatchingPass α × Nat)} (hresume : w.resume d ex = ((d', some w'), ex'))
    (hrest : Waits w' visits turns w'') : Waits w ((d, ex) :: visits) (w.turns d ++ turns) w''

/-- A pass that has to wait has asked the exchange for nothing. -/
theorem resume_eq_some {w w' : SuspendedPass α} {d d' : Desk α} {ex ex' : σ}
    (h : w.resume d ex = ((d', some w'), ex')) : w' = (w.goOn d).2 ∧ ex' = ex := by
  unfold resume at h
  simp only at h
  split at h
  · simp at h
  · simp only [Prod.mk.injEq, Option.some.injEq] at h
    exact ⟨h.1.2.symm, h.2.symm⟩

/-- A pass that comes to its end has no order left, and lets traders refresh themselves. -/
theorem resume_eq_none {w : SuspendedPass α} {d d' : Desk α} {ex ex' : σ}
    (h : w.resume d ex = ((d', none), ex')) :
    (w.goOn d).2.ahead = [] ∧ (w.goOn d).2.unseen = [] ∧
      (w.goOn d).1.desk.refreshTraders ex (w.goOn d).1.toRefresh = (d', ex') := by
  unfold resume at h
  simp only at h
  split at h
  · next hdone =>
    simp only [isDone, Bool.and_eq_true, List.isEmpty_iff] at hdone
    refine ⟨hdone.1.2, hdone.1.1, ?_⟩
    simp only [Prod.mk.injEq, and_true] at h
    exact Prod.ext h.1 h.2
  · simp at h

/-- However often a pass has to wait, what is left of it knows of all turns so far. -/
theorem Waits.since {w w' : SuspendedPass α} {visits : List (Desk α × σ)}
    {turns : List (MatchingPass α × Nat)} (h : w.Waits visits turns w') (hw : w.IsOrderly) :
    w.Since (visits.map (·.1)) turns w' := by
  induction h with
  | nil w => exact .refl hw
  | @cons w w' w'' d d' ex ex' visits turns hresume hrest ih =>
    have hfirst := since_goOn hw d
    rw [← (resume_eq_some hresume).1] at hfirst
    exact hfirst.trans (ih hfirst.orderly)

end SuspendedPass

/-! ## Refreshes -/

namespace Desk

/-- The traders of these names read their orders and the balances anew, each of them once and one
after the other, whether that fails or not. -/
inductive Refreshed {σ : Type} [Exchange σ α] : Desk α → σ → List String → Desk α → σ → Prop
  | nil (d : Desk α) (ex : σ) : Refreshed d ex [] d ex
  | cons {d d' : Desk α} {ex ex₁ ex' : σ} {name : String} {names : List String} {t t' : Trader α}
    {portfolio : Portfolio α} {failure : Option RefreshFailure} (ht : d.trader? name = some t)
    (hasked : t.forceRefresh d.portfolio ex = ((t', portfolio, failure), ex₁))
    (hrest : Refreshed { d.modifyTrader name fun _ => t' with portfolio } ex₁ names d' ex') :
    Refreshed d ex (name :: names) d' ex'

/-- Whether a trader of this name is registered. -/
def hasTrader (d : Desk α) (name : String) : Bool := (d.trader? name).isSome

variable {σ : Type} [Exchange σ α] [Amount α]

/-- A refresh neither registers a trader nor removes one. -/
theorem hasTrader_refreshTrader (d : Desk α) (ex : σ) (name other : String) :
    (d.refreshTrader ex name).1.1.hasTrader other = d.hasTrader other := by
  have hlog := congrArg Option.isSome ((d.closes_refreshTrader ex name).log?_eq other)
  rwa [log?, log?, Option.map_map, Option.isSome_map, Option.isSome_map] at hlog

/-- Of the traders that are to refresh themselves those that are registered do so. -/
theorem refreshed_refreshTraders (d : Desk α) (ex : σ) (names : List String) :
    d.Refreshed ex (names.filter d.hasTrader) (d.refreshTraders ex names).1
      (d.refreshTraders ex names).2 := by
  induction names generalizing d ex with
  | nil => exact .nil d ex
  | cons name rest ih =>
    have hrest := ih (d.refreshTrader ex name).1.1 (d.refreshTrader ex name).2
    have hsame : (d.refreshTrader ex name).1.1.hasTrader = d.hasTrader :=
      funext (d.hasTrader_refreshTrader ex name)
    rw [hsame] at hrest
    rw [List.filter_cons, refreshTraders]
    cases ht : d.trader? name with
    | none =>
      have hnobody : d.refreshTrader ex name = ((d, none), ex) := by simp [refreshTrader, ht]
      rw [hnobody] at hrest
      simpa [hasTrader, ht, hnobody] using hrest
    | some t =>
      rcases hasked : t.forceRefresh d.portfolio ex with ⟨⟨t', portfolio, failure⟩, ex₁⟩
      have hrefreshed : d.refreshTrader ex name
          = (({ d.modifyTrader name fun _ => t' with portfolio }, failure), ex₁) := by
        simp [refreshTrader, ht, hasked]
      rw [hrefreshed] at hrest
      simp only [hasTrader, ht, Option.isSome_some, if_true, hrefreshed]
      exact .cons ht hasked hrest

/-! ## What a pass does about vanished counterparts -/

/-- A pass with these turns came to `p`, and then to the desk `d'`. Each order has one turn at most.
The orders that are reported as missing are those that had vanished at their turn: they were open,
with a counterpart that no trader of their trader's name knew. Their turns leave the desk as it is,
and no other turn changes them. After the last turn the registered ones of their traders refresh
themselves once each, in the order in which they were met, and whatever comes of it, the orders stay
as they are. -/
structure MissesVanished (replayed : Bool) (window : List (Trade α))
    (turns : List (MatchingPass α × Nat)) (p : MatchingPass α) (ex : σ) (d' : Desk α) (ex' : σ) :
    Prop where
  each_once : (turns.map (·.2)).Nodup
  vanished_iff : ∀ turn ∈ turns, ∀ o, turn.1.vanished? turn.2 = some o ↔
    turn.1.desk.orders.at? turn.2 = some o ∧ o.status = .opened ∧ ∃ id, o.exchangeId = some id ∧
      ∀ t, turn.1.desk.trader? o.trader = some t → t.knows id = false
  missing_eq : p.report.missing = (MatchingPass.vanished turns).map (·.id)
  spared : ∀ turn ∈ turns, ∀ o, turn.1.vanished? turn.2 = some o →
    (turn.1.turn replayed window turn.2).1.desk = turn.1.desk ∧
      (turn.1.turn replayed window turn.2).2 = []
  apart : ∀ turn ∈ turns, ∀ other, other ≠ turn.2 →
    (turn.1.turn replayed window turn.2).1.desk.orders.at? other = turn.1.desk.orders.at? other
  refreshed : p.desk.Refreshed ex
    (((MatchingPass.vanished turns).map (·.trader)).eraseDups.filter p.desk.hasTrader) d' ex'
  orders_eq : d'.orders = p.desk.orders

/-- It is enough that a pass noted what vanished: its report, its refreshes and what it spares
follow. -/
theorem missesVanished_of_noted (replayed : Bool) (window : List (Trade α))
    {turns : List (MatchingPass α × Nat)} {p : MatchingPass α} (ex : σ)
    (honce : (turns.map (·.2)).Nodup)
    (hnoted : p.noted = (MatchingPass.vanished turns).foldl MatchingPass.note ([], [])) :
    MissesVanished replayed window turns p ex (p.desk.refreshTraders ex p.toRefresh).1
      (p.desk.refreshTraders ex p.toRefresh).2 := by
  rw [MatchingPass.foldl_note] at hnoted
  obtain ⟨hmissing, hrefresh⟩ := Prod.mk.inj hnoted
  exact
    { each_once := honce
      vanished_iff := fun _ _ _ => MatchingPass.vanished?_eq_some
      missing_eq := hmissing
      spared := fun turn _ o ho => by
        rw [MatchingPass.turn_of_vanished replayed window ho]
        exact ⟨rfl, rfl⟩
      apart := fun turn _ other hne => turn.1.at?_turn_of_ne replayed window hne
      refreshed := hrefresh ▸ refreshed_refreshTraders p.desk ex p.toRefresh
      orders_eq := orders_refreshTraders p.desk ex p.toRefresh }

/-- **Vanished counterparts.** A matching pass misses the orders that it finds vanished at their
turns, and leaves them alone.

A pass that goes through at once has the turns of the open orders of its symbol. Whatever it does,
at each turn the traders know what they knew at the beginning, and an order that had vanished is not
filled in the end.

A pass that has to wait has turns of stored orders of its symbol, in the order of addition; an
order without a turn was not open at one of the desks where the pass was taken up. At each turn
the traders know what they knew when the pass was last taken up. Only in the end is the exchange
asked. -/
theorem counterparts_vanish (d : Desk α) (m : Market α) (symbol : Symbol) (replayed : Bool)
    {window : List (Trade α)} (hwindow : d.window? m symbol = some window) :
    (let p := d.pass symbol replayed window
      let turns := ({ desk := d } : MatchingPass α).turns replayed window
        (d.orders.openOrders symbol)
      turns.map (·.2) = d.orders.openOrders symbol ∧
      (∀ turn ∈ turns, ∀ o, turn.1.desk.isMissing o = d.isMissing o) ∧
      (∀ turn ∈ turns, ∀ o, turn.1.vanished? turn.2 = some o →
        p.desk.orders.status? turn.2 ≠ some .filled) ∧
      ∀ ex : σ, (d.matchSymbol m ex symbol replayed).1.2 = p.report ∧
        MissesVanished replayed window turns p ex (d.matchSymbol m ex symbol replayed).1.1
          (d.matchSymbol m ex symbol replayed).2) ∧
    (∀ w, SuspendedPass.start? d m symbol replayed = some w →
      ∀ (visits : List (Desk α × σ)) (before : List (MatchingPass α × Nat)) (w' : SuspendedPass α),
        w.Waits visits before w' → ∀ (d₁ d₂ : Desk α) (ex ex' : σ),
        w'.resume d₁ ex = ((d₂, none), ex') →
      let p := (w'.goOn d₁).1
      let turns := before ++ w'.turns d₁
      let desks := visits.map (·.1) ++ [d₁]
      (turns.map (·.2)).Sublist (d.orders.ordersFor symbol) ∧
      (∀ handle ∈ d.orders.ordersFor symbol, handle ∈ turns.map (·.2) ∨
        ∃ d' ∈ desks, (d'.orders.at? handle).any (·.isOpen) = false) ∧
      (∀ turn ∈ turns, ∃ d' ∈ desks, ∀ o, turn.1.desk.isMissing o = d'.isMissing o) ∧
      MissesVanished replayed window turns p ex d₂ ex') ∧
    ∀ (w w' : SuspendedPass α) (d d' : Desk α) (ex ex' : σ),
      w.resume d ex = ((d', some w'), ex') → ex' = ex := by
  refine ⟨?_, ?_, fun _ _ _ _ _ _ h => (SuspendedPass.resume_eq_some h).2⟩
  -- a pass that goes through at once is one stretch
  · have hpass := ({ desk := d } : MatchingPass α).stretch_turns replayed window
      (d.orders.openOrders symbol)
    have hhandles := ({ desk := d } : MatchingPass α).map_turns replayed window
      (d.orders.openOrders symbol)
    have honce : (d.orders.openOrders symbol).Nodup :=
      (OrderStore.pairwise_openOrders d.orders symbol).imp Nat.ne_of_lt
    have honce' : ((({ desk := d } : MatchingPass α).turns replayed window
        (d.orders.openOrders symbol)).map (·.2)).Nodup := by
      rw [hhandles]
      exact honce
    refine ⟨hhandles, fun turn hturn o => isMissing_congr (hpass.known turn hturn) o,
      fun turn hturn o ho => MatchingPass.not_filled_of_vanished replayed window _ honce hturn ho,
      fun ex => ?_⟩
    simp only [matchSymbol, hwindow, true_and]
    exact missesVanished_of_noted replayed window ex honce' hpass.noted_eq
  · intro w hw visits before w' hwaits d₁ d₂ ex ex' hresume
    rw [SuspendedPass.start?, hwindow, Option.map_some, Option.some.injEq] at hw
    subst hw
    obtain ⟨hahead, hunseen, hrefreshes⟩ := SuspendedPass.resume_eq_none hresume
    -- a pass that waits is put together from the stretches between its waits
    have hwaited := hwaits.since (.inr rfl)
    have hall := hwaited.trans (SuspendedPass.since_goOn hwaited.orderly d₁)
    have hsublist := hall.sublist
    have hfound := hall.found
    rw [hahead, hunseen, List.append_nil, List.append_nil] at hsublist hfound
    have honce : (d.orders.ordersFor symbol).Nodup :=
      List.nodup_range.filter _
    refine ⟨hsublist, hfound, fun turn hturn => ?_, ?_⟩
    · obtain ⟨d', hd', heq⟩ := hall.known turn hturn
      exact ⟨d', hd', isMissing_congr heq⟩
    · have hnoted := hall.noted_eq
      rw [SuspendedPass.noted_goOn] at hnoted
      have hmisses := missesVanished_of_noted replayed window ex (honce.sublist hsublist) hnoted
      rwa [hrefreshes] at hmisses

end Desk

/-! ## A pass that waits before the turn of a stray order -/

namespace SuspendedPass

/-- A trader, and an exchange that will not answer its first query for open orders. -/
def strayFloor : Floor (ScriptedExchange ℚ) ℚ :=
  .opening ⟨10, 10, []⟩ (ScriptedExchange.addMishap {} .openOrders (.unavailable "down"))
    ⟨.empty 0, ⟨[("USDT", 1000)]⟩, ⟨1 / 1000, 2 / 1000⟩, 50,
      [{ name := "sim", symbols := ["BTC/USDT"] }]⟩ 3

/-- A purchase linked to one of another symbol, and a purchase whose counterpart nobody knows. -/
def strayPurchases : List (FloorEvent (ScriptedExchange ℚ) ℚ) :=
  [.add (.new "first" "BTC/USDT" .buyLimit 100 1 "sim" 0),
    .add (.new "other" "ETH/USDT" .buyLimit 10 1 "sim" 0), .link "first" "other",
    .add { (.new "stray" "BTC/USDT" .buyLimit 100 1 "sim" 0 : Order ℚ) with
      exchangeId := some "x" },
    .trades "BTC/USDT" [⟨99, 1, 1000⟩]]

/-- The desk while somebody holds the order of the other symbol. -/
def strayDesk : Desk ℚ :=
  let d := (strayFloor.run strayPurchases).desk
  { d with orders := d.orders.hold "other" }

/-- The pass over the purchases at its beginning. -/
def strayPass : SuspendedPass ℚ where
  replayed := false
  window := [⟨99, 1, 1000⟩]
  unseen := [0, 2]

/-- The first purchase was filled, and the pass waits to cancel the order that it is linked to. Then
that is let go of, and the traders may have come to know more. -/
def strayDeskLater (learn : Trader ℚ → Trader ℚ) : Desk ℚ :=
  let d := (strayPass.goOn strayDesk).1.desk
  { d with orders := d.orders.setHeld 1 false, traders := d.traders.map learn }

/-- The trades at which the purchases would be filled. -/
theorem window?_stray : strayDesk.window? (strayFloor.run strayPurchases).market "BTC/USDT"
    = some strayPass.window := by
  rfl

/-- The pass fills the first purchase and waits, as the order that is linked to it is held. -/
theorem resume_stray (ex : ScriptedExchange ℚ) : strayPass.resume strayDesk ex
    = (((strayPass.goOn strayDesk).1.desk, some (strayPass.goOn strayDesk).2), ex) := by
  have hwaits : (strayPass.goOn strayDesk).2.isDone = false := by decide +kernel
  simp [resume, hwaits]

/-- Nothing was learned, so the stray purchase is missing, and its trader asks the exchange, which
does not tell it the open orders. -/
theorem counterparts_vanish_stray :
    let ex := (strayFloor.run strayPurchases).exchange
    let left := (strayPass.goOn strayDesk).2
    ∃ (d₂ : Desk ℚ) (ex' : ScriptedExchange ℚ),
      left.resume (strayDeskLater id) ex = ((d₂, none), ex') ∧
      (left.goOn (strayDeskLater id)).1.report = ⟨["first"], ["other"], ["stray"]⟩ ∧
      (left.goOn (strayDeskLater id)).1.desk.Refreshed ex ["sim"] d₂ ex' ∧
      ex'.calls = ["balance", "open_orders BTC/USDT"] ∧
      d₂.orders.status? 2 = some .opened := by
  intro ex left
  obtain ⟨-, hwaiting, -⟩ := Desk.counterparts_vanish (σ := ScriptedExchange ℚ) strayDesk
    (strayFloor.run strayPurchases).market "BTC/USDT" false window?_stray
  have hdone : (left.goOn (strayDeskLater id)).2.isDone = true := by decide +kernel
  rcases hrefreshes : (left.goOn (strayDeskLater id)).1.desk.refreshTraders ex
    (left.goOn (strayDeskLater id)).1.toRefresh with ⟨d₂, ex'⟩
  have hresume : left.resume (strayDeskLater id) ex = ((d₂, none), ex') := by
    simp [resume, hdone, hrefreshes]
  obtain ⟨-, -, -, hmisses⟩ := hwaiting strayPass rfl [(strayDesk, ex)] _ left
    (.cons (resume_stray ex) (.nil left)) (strayDeskLater id) d₂ ex ex' hresume
  refine ⟨d₂, ex', hresume, by decide +kernel, ?_, ?_, ?_⟩
  · have howners : (((MatchingPass.vanished ((strayPass.turns strayDesk ++ [])
        ++ left.turns (strayDeskLater id))).map (·.trader)).eraseDups.filter
          (left.goOn (strayDeskLater id)).1.desk.hasTrader) = ["sim"] := by decide +kernel
    exact howners ▸ hmisses.refreshed
  · have hcalls : ((left.goOn (strayDeskLater id)).1.desk.refreshTraders ex
        (left.goOn (strayDeskLater id)).1.toRefresh).2.calls
          = ["balance", "open_orders BTC/USDT"] := by decide +kernel
    rwa [hrefreshes] at hcalls
  · rw [hmisses.orders_eq]
    decide +kernel

/-- When the pass begins nobody knows the counterpart of the stray purchase. While the pass waits
its trader learns of it. At its turn the purchase is open, and it is not missing but filled. -/
theorem counterpart_appears :
    let left := (strayPass.goOn strayDesk).2
    let later := strayDeskLater (·.track "BTC/USDT" "x")
    (∃ o, strayDesk.orders.at? 2 = some o ∧ o.id = "stray" ∧ strayDesk.isMissing o = true) ∧
    start? strayDesk (strayFloor.run strayPurchases).market "BTC/USDT" false = some strayPass ∧
    (∀ ex : ScriptedExchange ℚ, strayPass.resume strayDesk ex
      = (((strayPass.goOn strayDesk).1.desk, some left), ex)) ∧
    (left.turns later).map (fun turn => (turn.2, turn.1.desk.orders.status? turn.2))
      = [(2, some .opened)] ∧
    (left.goOn later).1.report = ⟨["first", "stray"], ["other"], []⟩ ∧
    (left.goOn later).1.desk.orders.status? 2 = some .filled := by
  intro left later
  refine ⟨⟨_, rfl, rfl, by decide +kernel⟩, rfl, fun ex => resume_stray ex, by decide +kernel,
    by decide +kernel, by decide +kernel⟩

end SuspendedPass

end MarketEngine
