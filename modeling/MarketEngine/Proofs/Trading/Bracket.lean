import MarketEngine.Proofs.Trading.Floor
/-!
# One cancels the other

Of two orders that were linked while both were open, at most one is ever filled, and after the pass
that fills it the other one is canceled (`Floor.one_cancels_other`). Handles stand for the orders,
so an id may well be taken again after its order was given up.

A pass that comes to fill one of the two finds the other under its id: an open order is never given
up, and the id of a stored order is not taken again. Links are never removed.

These are runs in which nobody holds an order, so each pass goes through before the next event. A
pass that waits for an order in the midst of its turns (`SuspendedPass`) is no event of them.
-/

namespace MarketEngine

variable {σ α : Type}

/-! ## Linked orders -/

namespace OrderStore

/-- Two orders are linked to each other, and where one is filled the other is canceled. -/
structure Bracket (s : OrderStore α) (a b : Nat) : Prop where
  ne : a ≠ b
  linked : ∃ first second, s.at? a = some first ∧ s.at? b = some second ∧
    second.id ∈ first.linked ∧ first.id ∈ second.linked
  left : s.status? a = some .filled → s.status? b = some .canceled
  right : s.status? b = some .filled → s.status? a = some .canceled

namespace Bracket

variable {s s' : OrderStore α} {a b : Nat}

/-- Neither order of a bracket comes first. -/
theorem symm (h : s.Bracket a b) : s.Bracket b a where
  ne := h.ne.symm
  linked := by
    obtain ⟨first, second, ha, hb, hab, hba⟩ := h.linked
    exact ⟨second, first, hb, ha, hba, hab⟩
  left := h.right
  right := h.left

/-- Of a bracket at most one order is filled. -/
theorem not_both_filled (h : s.Bracket a b) :
    ¬(s.status? a = some .filled ∧ s.status? b = some .filled) := by
  rintro ⟨ha, hb⟩
  rw [h.left ha] at hb
  simp at hb

/-- Orders that only age stay linked. -/
theorem linked_of_ages (h : s.Bracket a b) (hages : s.Ages s') :
    ∃ first second, s'.at? a = some first ∧ s'.at? b = some second ∧
      second.id ∈ first.linked ∧ first.id ∈ second.linked := by
  obtain ⟨first, second, ha, hb, hab, hba⟩ := h.linked
  obtain ⟨first', ha', hagea⟩ := hages ha
  obtain ⟨second', hb', hageb⟩ := hages hb
  refine ⟨first', second', ha', hb', ?_, ?_⟩
  · rw [hageb.id_eq]
    exact hagea.linked_subset hab
  · rw [hagea.id_eq]
    exact hageb.linked_subset hba

/-- The orders may age as long as neither of the two gets filled. -/
theorem of_ages (h : s.Bracket a b) (hages : s.Ages s')
    (ha : s'.status? a = some .filled → s.status? a = some .filled)
    (hb : s'.status? b = some .filled → s.status? b = some .filled) : s'.Bracket a b where
  ne := h.ne
  linked := h.linked_of_ages hages
  left hfilled := hages.status?_eq (h.left (ha hfilled)) (by simp)
  right hfilled := hages.status?_eq (h.right (hb hfilled)) (by simp)

/-- Where no order is filled a bracket stays one. -/
theorem of_unfilled (h : s.Bracket a b) (hs : s.Unfilled s') : s'.Bracket a b := by
  obtain ⟨first, second, ha, hb, -, -⟩ := h.linked
  exact h.of_ages hs.ages
    (fun hfilled => status?_eq_some.2 ⟨first, ha, hs.status_eq ha hfilled⟩)
    (fun hfilled => status?_eq_some.2 ⟨second, hb, hs.status_eq hb hfilled⟩)

end Bracket

/-- Linking two open orders makes a bracket of them. -/
theorem bracket_link {s s' : OrderStore α} {first second : String} {a b : Nat}
    (hlink : s.link first second = .ok s') (ha : s.handle? first = some a)
    (hb : s.handle? second = some b) (hne : first ≠ second)
    (hopena : s.status? a = some .opened) (hopenb : s.status? b = some .opened) :
    s'.Bracket a b := by
  obtain ⟨a', b', ha', hb', rfl⟩ := link_eq_ok hlink
  obtain rfl : a = a' := Option.some.inj (ha.symm.trans ha')
  obtain rfl : b = b' := Option.some.inj (hb.symm.trans hb')
  obtain ⟨slota, hslota, -, hida⟩ := handle?_eq_some ha
  obtain ⟨slotb, hslotb, -, hidb⟩ := handle?_eq_some hb
  -- one slot cannot stand under two ids
  have hab : a ≠ b := by
    rintro rfl
    rw [hslota, Option.some.injEq] at hslotb
    exact hne (hida ▸ hidb ▸ hslotb ▸ rfl)
  have hordera : s.at? a = some slota.order := at?_eq_some.2 ⟨slota, hslota, rfl⟩
  have horderb : s.at? b = some slotb.order := at?_eq_some.2 ⟨slotb, hslotb, rfl⟩
  have hstatus := fun k => status?_link hlink k
  refine ⟨hab, ⟨slota.order.link second, slotb.order.link first, ?_, ?_, ?_, ?_⟩, ?_, ?_⟩
  · simp [at?_modify, hordera, hab.symm]
  · simp [at?_modify, horderb, hab]
  · rw [(Order.ages_link slotb.order first).id_eq, hidb]
    exact Order.mem_linked_link fun h => hne (hida ▸ h.symm)
  · rw [(Order.ages_link slota.order second).id_eq, hida]
    exact Order.mem_linked_link fun h => hne (hidb ▸ h)
  · rw [hstatus, hopena]
    simp
  · rw [hstatus, hopenb]
    simp

end OrderStore

/-! ## Passes -/

namespace MatchingPass

/-- Of the linked orders that are canceled in turn, each that is not filled is canceled then. -/
theorem status?_foldl_cancelLinked {p : MatchingPass α} (hsound : p.desk.orders.Sound)
    {handle : Nat} {o : Order α} (ho : p.desk.orders.at? handle = some o)
    (hunfilled : o.status ≠ .filled) {ids : List String} (hid : o.id ∈ ids) :
    (ids.foldl cancelLinked p).desk.orders.status? handle = some .canceled := by
  -- an order that is canceled stays so
  have hrest : ∀ (p : MatchingPass α) (ids : List String),
      p.desk.orders.status? handle = some .canceled →
      (ids.foldl cancelLinked p).desk.orders.status? handle = some .canceled :=
    fun p ids h => (kept_foldl_cancelLinked p ids).ages.status?_eq h (by simp)
  induction ids generalizing p o with
  | nil => simp at hid
  | cons id rest ih =>
    rw [List.foldl_cons]
    have hkept := kept_cancelLinked p id
    obtain ⟨o', ho', hages⟩ := hkept.ages ho
    have hunfilled' : o'.status ≠ .filled := fun h =>
      hunfilled ((unfilled_cancelLinked p id).status_eq ho
        (OrderStore.status?_eq_some.2 ⟨o', ho', h⟩))
    cases hstatus : o'.status with
    | filled => exact absurd hstatus hunfilled'
    | canceled => exact hrest _ _ (OrderStore.status?_eq_some.2 ⟨o', ho', hstatus⟩)
    | opened =>
      have hopen' : o'.isOpen = true := Order.isOpen_iff.2 hstatus
      refine ih (hkept.sound hsound) ho' hunfilled' ?_
      rw [hages.id_eq]
      refine (List.mem_cons.1 hid).resolve_left fun hsame => ?_
      -- the order would have been found under its id, and canceled
      have hopen : o.isOpen = true := hages.isOpen_of_isOpen hopen'
      have hfound := hsound.handle?_of_isOpen ho hopen
      rw [hsame] at hfound
      rcases cancelLinked_cases p id with ⟨-, hclosed⟩ | ⟨handle', o'', hhandle, ho'', -, hcancel⟩
      · rw [hclosed handle o hfound ho] at hopen
        simp at hopen
      · rw [hfound, Option.some.injEq] at hhandle
        subst hhandle
        rw [ho, Option.some.injEq] at ho''
        subst ho''
        have hcanceled : (p.cancelLinked id).desk.orders.at? handle = some o.cancel.1 := by
          simp [hcancel, canceling, OrderStore.at?_modify_self ho]
        rw [hcanceled, Option.some.injEq] at ho'
        rw [← ho', Order.isOpen_cancel] at hopen'
        simp at hopen'

variable [Amount α] {a b : Nat}

/-- An order of a bracket that fills cancels the other one. -/
theorem bracket_filling {p : MatchingPass α} (hsound : p.desk.orders.Sound)
    (h : p.desk.orders.Bracket a b) {o : Order α} (ho : p.desk.orders.at? a = some o)
    (hopen : o.isOpen = true) (price : α) (portfolio : Portfolio α) :
    (o.linked.foldl cancelLinked (p.filling a o price portfolio)).desk.orders.Bracket a b := by
  obtain ⟨first, second, ha, hb, hab, -⟩ := h.linked
  rw [ho, Option.some.injEq] at ha
  subst ha
  have hkept := kept_filling p a o price portfolio
  have hb' : (p.filling a o price portfolio).desk.orders.at? b = some second := by
    simp [filling, noteFill, OrderStore.at?_modify, h.ne, hb]
  -- otherwise the order that fills now would have been canceled
  have hunfilled : second.status ≠ .filled := by
    intro hfilled
    have hcanceled := h.right (OrderStore.status?_eq_some.2 ⟨second, hb, hfilled⟩)
    rw [OrderStore.status?, ho, Option.map_some, Order.isOpen_iff.1 hopen] at hcanceled
    simp at hcanceled
  have hcanceled := status?_foldl_cancelLinked (hkept.sound hsound) hb' hunfilled hab
  refine ⟨h.ne, ?_, fun _ => hcanceled, fun hfilled => ?_⟩
  · exact h.linked_of_ages (hkept.ages.trans (kept_foldl_cancelLinked _ _).ages)
  · rw [hcanceled] at hfilled
    simp at hfilled

/-- A visit keeps a bracket: if it fills one order of it, the other one is among the linked orders
that are canceled. -/
theorem bracket_visit {p : MatchingPass α} (hsound : p.desk.orders.Sound)
    (h : p.desk.orders.Bracket a b) (replayed : Bool) (window : List (Trade α)) (handle : Nat) :
    (p.visit replayed window handle).desk.orders.Bracket a b := by
  have hturn := turn_spec replayed window p handle
  simp only [visit]
  generalize p.turn replayed window handle = r at hturn ⊢
  cases hturn with
  | @filled o price portfolio ho hopen hknown hprice hpay =>
    by_cases ha : handle = a
    · subst ha
      exact bracket_filling hsound h ho hopen price portfolio
    · by_cases hb : handle = b
      · subst hb
        exact (bracket_filling hsound h.symm ho hopen price portfolio).symm
      · -- the order is neither of the two
        have hstatus : ∀ k, handle ≠ k →
            (p.filling handle o price portfolio).desk.orders.status? k
              = p.desk.orders.status? k := fun k hk => by
          simp [filling, noteFill, OrderStore.status?, OrderStore.at?_modify, hk]
        have hfilling := h.of_ages (kept_filling p handle o price portfolio).ages
          (fun hfilled => hstatus a ha ▸ hfilled) (fun hfilled => hstatus b hb ▸ hfilled)
        exact hfilling.of_unfilled (unfilled_foldl_cancelLinked _ _)
  | _ => exact h

/-- A pass keeps brackets. -/
theorem bracket_pass {d : Desk α} (hsound : d.orders.Sound) (h : d.orders.Bracket a b)
    (symbol : Symbol) (replayed : Bool) (window : List (Trade α)) :
    (d.pass symbol replayed window).desk.orders.Bracket a b := by
  have hboth := d.pass_induction
    (motive := fun p => p.desk.orders.Sound ∧ p.desk.orders.Bracket a b) symbol replayed window
    ⟨hsound, h⟩
    fun p hp handle => ⟨(kept_visit replayed window p handle).sound hp.1,
      bracket_visit hp.1 hp.2 replayed window handle⟩
  exact hboth.2

end MatchingPass

/-! ## Runs -/

namespace Floor

variable [Exchange σ α] [Amount α] {a b : Nat}

/-- After a pass the ids are distinct and the open orders are stored. -/
theorem sound_pass {f : Floor σ α} (h : f.desk.orders.Sound) (symbol : Symbol)
    (replayed : Bool) : (f.pass symbol replayed).desk.orders.Sound := by
  obtain ⟨p, hp, horders, -, -⟩ := f.pass_spec symbol replayed
  rw [horders]
  rcases hp with rfl | ⟨window, rfl⟩
  · exact h
  · exact (f.desk.kept_pass symbol replayed window).sound h

/-- In every state of every run the ids are distinct and the open orders are stored. -/
theorem sound_run {f : Floor σ α} (h : f.desk.orders.Sound) (events : List (FloorEvent σ α)) :
    (f.run events).desk.orders.Sound :=
  run_induction (motive := fun f => f.desk.orders.Sound)
    (fun f hf _ _ he => (f.step_spec he).unfilled.sound hf)
    (fun _ hf symbol replayed => sound_pass hf symbol replayed) h

/-- Since some passes ago, the two orders are a bracket, now and at the end of every pass. -/
structure Bracketed (since : List (MatchReport × OrderStore α)) (a b : Nat) (f : Floor σ α) :
    Prop where
  sound : f.desk.orders.Sound
  bracket : f.desk.orders.Bracket a b
  passes : ∃ later, f.passes = since ++ later ∧ ∀ entry ∈ later, entry.2.Bracket a b

variable {since : List (MatchReport × OrderStore α)}

/-- A pass keeps a bracket, also in what is recorded of it. -/
theorem Bracketed.pass {f : Floor σ α} (h : f.Bracketed since a b) (symbol : Symbol)
    (replayed : Bool) : (f.pass symbol replayed).Bracketed since a b := by
  obtain ⟨p, hp, horders, hpasses, -⟩ := f.pass_spec symbol replayed
  have hbracket : p.desk.orders.Bracket a b := by
    rcases hp with rfl | ⟨window, rfl⟩
    · exact h.bracket
    · exact MatchingPass.bracket_pass h.sound h.bracket symbol replayed window
  obtain ⟨later, hlater, hentries⟩ := h.passes
  refine ⟨sound_pass h.sound symbol replayed, horders ▸ hbracket,
    later ++ [(p.report, p.desk.orders)], ?_, fun entry hentry => ?_⟩
  · rw [hpasses, hlater, List.append_assoc]
  · rcases List.mem_append.1 hentry with hold | hnew
    · exact hentries entry hold
    · rw [List.mem_singleton.1 hnew]
      exact hbracket

/-- What is no pass fills no order, and so keeps a bracket. -/
theorem Bracketed.step {f : Floor σ α} (h : f.Bracketed since a b) {e : FloorEvent σ α}
    (he : e.isPass = false) : (f.step e).Bracketed since a b := by
  have hstep := f.step_spec he
  obtain ⟨later, hlater, hentries⟩ := h.passes
  exact ⟨hstep.unfilled.sound h.sound, h.bracket.of_unfilled hstep.unfilled, later,
    hstep.passes_eq.trans hlater, hentries⟩

/-- A bracket is kept by every event of a run. -/
theorem Bracketed.run {f : Floor σ α} (h : f.Bracketed since a b)
    (events : List (FloorEvent σ α)) : (f.run events).Bracketed since a b :=
  run_induction (motive := fun f => f.Bracketed since a b) (fun _ hf _ _ he => hf.step he)
    (fun _ hf symbol replayed => hf.pass symbol replayed) h

/-- After two different stored orders were linked while both were open, they are never both filled,
and where a later pass leaves one of them filled it leaves the other one canceled. Every pass of
such a run goes through at once. -/
theorem one_cancels_other (market : Market α) (exchange : σ) (desk : Desk α) (mostOrders : Nat)
    (before after : List (FloorEvent σ α)) {first second : String}
    (ha : ((opening market exchange desk mostOrders).run before).desk.orders.handle? first = some a)
    (hb : ((opening market exchange desk mostOrders).run before).desk.orders.handle? second
      = some b)
    (hne : first ≠ second)
    (hopena : ((opening market exchange desk mostOrders).run before).desk.orders.status? a
      = some .opened)
    (hopenb : ((opening market exchange desk mostOrders).run before).desk.orders.status? b
      = some .opened) :
    let f := (opening market exchange desk mostOrders).run before
    let g := (f.step (.link first second)).run after
    ¬(g.desk.orders.status? a = some .filled ∧ g.desk.orders.status? b = some .filled) ∧
    ∃ later, g.passes = f.passes ++ later ∧ ∀ entry ∈ later,
      (entry.2.status? a = some .filled → entry.2.status? b = some .canceled) ∧
      (entry.2.status? b = some .filled → entry.2.status? a = some .canceled) := by
  intro f g
  have hsound : f.desk.orders.Sound :=
    sound_run (OrderStore.sound_empty mostOrders) before
  have hlinked : (f.step (.link first second)).Bracketed f.passes a b := by
    obtain ⟨orders, hlink⟩ : ∃ orders, f.desk.orders.link first second = .ok orders := by
      simp [OrderStore.link, f, ha, hb]
    have hstep : f.step (.link first second) = f.withOrders orders := by
      simp [Floor.step, hlink]
    rw [hstep]
    exact ⟨hsound.link hlink, OrderStore.bracket_link hlink ha hb hne hopena hopenb, [],
      by simp [withOrders], by simp⟩
  -- the link makes a bracket, and every event keeps it
  have hrun : g.Bracketed f.passes a b := hlinked.run after
  obtain ⟨later, hlater, hentries⟩ := hrun.passes
  exact ⟨hrun.bracket.not_both_filled, later, hlater, fun entry hentry =>
    ⟨(hentries entry hentry).left, (hentries entry hentry).right⟩⟩

/-- The target is filled, and the stop is not open any more when the pass is over. -/
theorem one_cancels_other_bracket :
    let f := bracketFloor.run bracketOrders
    let g := (f.step (.link "target" "stop")).run bracketMatching
    f.desk.orders.handle? "target" = some 0 ∧ f.desk.orders.handle? "stop" = some 1 ∧
      f.desk.orders.status? 0 = some .opened ∧ f.desk.orders.status? 1 = some .opened ∧
      g.desk.orders.status? 0 = some .filled ∧ ∃ later, g.passes = f.passes ++ later ∧
        ∀ entry ∈ later, entry.2.status? 0 = some .filled →
          entry.2.status? 1 = some .canceled := by
  intro f g
  have ha : f.desk.orders.handle? "target" = some 0 := by decide +kernel
  have hb : f.desk.orders.handle? "stop" = some 1 := by decide +kernel
  have hopena : f.desk.orders.status? 0 = some .opened := by decide +kernel
  have hopenb : f.desk.orders.status? 1 = some .opened := by decide +kernel
  obtain ⟨-, later, hlater, hentries⟩ :=
    one_cancels_other _ _ _ _ bracketOrders bracketMatching ha hb (by decide) hopena hopenb
  exact ⟨ha, hb, hopena, hopenb, by decide +kernel, later, hlater,
    fun entry hentry => (hentries entry hentry).1⟩

end Floor

end MarketEngine
