import MarketEngine.Proofs.Channel.Activity
/-!
# What every move of a network keeps

A network moves in four ways: it lines its activities up, a send takes a step, a consumer takes its
turn, and a consumer goes on with the message it is in the midst of. What these keep
(`Network.Stable`), the network keeps however long it runs, and also while somebody outside waits
for a send.

So what consumers keep when they begin with a message and when they go on with one, whatever there
is under way, the whole network keeps (`Network.Keeps.stable`). It is enough that they keep it as
the consumers that subscribed do (`Network.Staffed`).
-/

namespace MarketEngine

variable {ℓ π σ κ : Type}

namespace Network

/-- A property of networks that every move keeps. -/
structure Stable (h : Handlers ℓ π σ κ) (I : Network ℓ π σ κ → Prop) : Prop where
  line : ∀ {n : Network ℓ π σ κ}, I n → ∀ ready awaited, I { n with ready, awaited }
  advance : ∀ {n : Network ℓ π σ κ}, I n → ∀ t, I (n.advance t).1
  takeNext : ∀ {n : Network ℓ π σ κ} {a : Address}, n.pending.lookup a = none → I n →
    I (n.takeNext h a)
  goOn : ∀ {n : Network ℓ π σ κ} {a : Address} {p : Pending κ}, n.pending.lookup a = some p → I n →
    I (n.proceed a (h.resume p.rest n.shared))

namespace Stable

variable {h : Handlers ℓ π σ κ} {I : Network ℓ π σ κ → Prop} {n : Network ℓ π σ κ}

/-- Whoever was first in line rests. -/
theorem rest (hI : Stable h I) (hn : I n) : I n.rest := hI.line hn n.ready.tail n.awaited

/-- A step of whoever is first in line is one of the moves. -/
theorem step (hI : Stable h I) (hn : I n) : I (n.step h) := by
  unfold Network.step
  split
  · exact hn
  · next t _ _ =>
    have hadvance := hI.advance hn t
    split
    · next n' hn' =>
      rw [hn'] at hadvance
      exact hadvance
    · next n' _ hn' =>
      rw [hn'] at hadvance
      exact hI.rest hadvance
  · next a _ _ =>
    split
    · next ha => exact hI.takeNext ha hn
    · next rest ha => exact hI.goOn ha hn
    · next t rest ha =>
      have hadvance := hI.advance hn t
      have hstill := still_advance n t
      split
      · next n' hn' =>
        rw [hn'] at hadvance
        exact hadvance
      · next n' hn' =>
        rw [hn'] at hadvance
        exact hI.rest hadvance
      · next n' hn' =>
        rw [hn'] at hadvance hstill
        have ha' : n'.pending.lookup a = some (.sending t rest) := by
          rw [hstill.pending_eq]
          exact ha
        exact hI.goOn ha' hadvance

/-- Any number of steps keeps what every move keeps. -/
theorem run (hI : Stable h I) (steps : Nat) (hn : I n) : I (Network.run h steps n) := by
  induction steps generalizing n with
  | zero => exact hn
  | succ steps ih =>
    unfold Network.run
    split
    · exact hn
    · exact ih (hI.step hn)

/-- A network that runs until nobody can go on keeps what every move keeps. -/
theorem settle (hI : Stable h I) (hn : I n) : I (n.settle h) := hI.run _ hn

/-- A send that is driven as far as it goes keeps what every move keeps. -/
theorem drive (hI : Stable h I) (hn : I n) (t : Ticket) : I (n.drive t) := by
  have hsteps : ∀ (steps : Nat) {n : Network ℓ π σ κ}, I n → I (n.driveFor t steps) := by
    intro steps
    induction steps with
    | zero => exact fun hn => hn
    | succ steps ih =>
      intro n hn
      have hadvance := hI.advance hn t
      unfold driveFor
      split
      · next n' hn' =>
        rw [hn'] at hadvance
        exact ih hadvance
      · next n' _ hn' =>
        rw [hn'] at hadvance
        exact hadvance
  exact hsteps _ hn

/-- Sends that are carried on for some rounds keep what every move keeps. -/
theorem carryOn (hI : Stable h I) (tickets : List Ticket) (rounds : Nat) (hn : I n) :
    I (Network.carryOn h tickets rounds n) := by
  induction rounds generalizing n with
  | zero => exact hn
  | succ rounds ih =>
    have hdriven : I (tickets.foldl Network.drive n) :=
      List.foldlRecOn tickets _ hn fun n hn t _ => hI.drive hn t
    unfold Network.carryOn
    simp only
    split
    · exact hdriven
    · exact ih (hI.settle hdriven)

/-- To wait for sends from outside keeps what every move keeps. -/
theorem await (hI : Stable h I) (hn : I n) (tickets : List Ticket) : I (n.await h tickets) := by
  have hawaited : I { n with awaited := tickets } := hI.line hn n.ready tickets
  exact hI.line (hI.carryOn tickets _ hawaited) _ []

end Stable

/-! ## What all consumers keep -/

/-- A property of the shared state and of what is under way that consumers of some kind keep when
they begin with a message and when they go on with one. -/
structure Keeps (h : Handlers ℓ π σ κ) (labels : ℓ → Prop) (P : σ → List κ → Prop) : Prop where
  perm : ∀ {s : σ} {rests rests' : List κ}, rests.Perm rests' → P s rests → P s rests'
  start : ∀ {label : ℓ}, labels label → ∀ (m : Message π) {s : σ} {rests : List κ}, P s rests →
    P (h.start label m s).2 (rests ++ (h.start label m s).1.rests)
  resume : ∀ (rest : κ) {s : σ} {rests : List κ}, P s (rest :: rests) →
    P (h.resume rest s).2 (rests ++ (h.resume rest s).1.rests)

/-- The property holds of a network that has consumers of this kind only, where none is in the midst
of two messages. -/
structure Holds (labels : ℓ → Prop) (P : σ → List κ → Prop) (n : Network ℓ π σ κ) : Prop where
  orderly : n.Orderly
  staffed : n.Staffed labels
  holds : P n.shared n.rests

variable {labels : ℓ → Prop} {P : σ → List κ → Prop}

/-- Where nobody new subscribed and nobody did anything, the property holds on. -/
theorem Holds.of_still {n n' : Network ℓ π σ κ} (hn : Holds labels P n) (h : n.Still n') :
    Holds labels P n' where
  orderly := h.orderly hn.orderly
  staffed := h.staffed hn.staffed
  holds := by
    rw [h.shared_eq, h.rests_eq]
    exact hn.holds

/-- A property that does not look at the shared state does not mind a change of it. -/
theorem Holds.with_shared {Q : List κ → Prop} {n : Network ℓ π σ κ}
    (hn : Holds labels (fun _ => Q) n) (shared : σ) :
    Holds labels (fun _ => Q) { n with shared } :=
  ⟨hn.orderly, hn.staffed, hn.holds⟩

namespace Keeps

variable {h : Handlers ℓ π σ κ}

/-- The same with one more message that somebody outside is in the midst of. -/
theorem cons (hP : Keeps h labels P) (rest : κ) :
    Keeps h labels fun s rests => P s (rest :: rests) where
  perm hperm hs := hP.perm (hperm.cons rest) hs
  start hlabel m _ _ hs := hP.start hlabel m hs
  resume other _ _ hs := hP.resume other (hP.perm (List.Perm.swap _ _ _) hs)

/-- The property holds on when a consumer goes on, if it holds of what is then under way. -/
theorem proceed (hP : Keeps h labels P) {n : Network ℓ π σ κ} (hn : n.Orderly)
    (hstaffed : n.Staffed labels) (a : Address) {next : Next π κ × σ}
    (hnext : P next.2 (n.others a ++ next.1.rests)) : Holds labels P (n.proceed a next) := by
  have hproceeds := proceed_spec hn a next
  refine ⟨hproceeds.orderly, hproceeds.staffed hstaffed, ?_⟩
  rw [hproceeds.shared_eq]
  exact hP.perm hproceeds.perm.symm hnext

/-- A consumer goes on with the message it is in the midst of. -/
theorem proceed_resume (hP : Keeps h labels P) {n : Network ℓ π σ κ} (hn : Holds labels P n)
    {a : Address} {p : Pending κ} (hp : n.pending.lookup a = some p) :
    Holds labels P (n.proceed a (h.resume p.rest n.shared)) :=
  hP.proceed hn.orderly hn.staffed a
    (hP.resume _ (hP.perm (rests_perm_others hn.orderly hp) hn.holds))

/-- The property holds on when a consumer takes a message and begins with it. -/
theorem takeNext (hP : Keeps h labels P) {n : Network ℓ π σ κ} (hn : Holds labels P n)
    {a : Address} (ha : n.pending.lookup a = none) : Holds labels P (n.takeNext h a) := by
  unfold Network.takeNext
  split
  · exact hn.of_still (.of_eq rfl rfl rfl)
  · next c hc =>
    have hstill : n.Still (n.put a.topic (c.take a.consumer).1) :=
      still_put hc fun hstaffed => hstaffed.take a.consumer
    rcases htaken : c.take a.consumer with ⟨c', taken⟩
    rw [htaken] at hstill
    have hput := hn.of_still hstill
    cases taken with
    | none => exact hput.of_still (.of_eq rfl rfl rfl)
    | some m =>
      cases hk : c.consumers[a.consumer]? with
      | none => exact hput.of_still (.of_eq rfl rfl rfl)
      | some k =>
        refine hP.proceed hput.orderly hput.staffed a ?_
        rw [← rests_eq_others (by rw [hstill.pending_eq]; exact ha), hstill.rests_eq]
        exact hP.start (hn.staffed hc k (List.mem_of_getElem? hk)) m hn.holds

/-- Whatever moves, the property goes on to hold. -/
theorem stable (hP : Keeps h labels P) : Stable h (Holds labels P) where
  line hn _ _ := hn.of_still (.of_eq rfl rfl rfl)
  advance hn t := hn.of_still (still_advance _ t)
  takeNext ha hn := hP.takeNext hn ha
  goOn hp hn := hP.proceed_resume hn hp

/-- The property holds on until nobody can go on. -/
theorem settle (hP : Keeps h labels P) {n : Network ℓ π σ κ} (hn : Holds labels P n) :
    Holds labels P (n.settle h) := hP.stable.settle hn

/-- The property holds on while somebody outside waits for sends. -/
theorem await (hP : Keeps h labels P) {n : Network ℓ π σ κ} (hn : Holds labels P n)
    (tickets : List Ticket) : Holds labels P (n.await h tickets) := hP.stable.await hn tickets

/-- The property holds on while somebody outside sends and waits. -/
theorem sendAndAwait (hP : Keeps h labels P) {n : Network ℓ π σ κ} (hn : Holds labels P n)
    (topic : Topic) (m : Message π) : Holds labels P (n.sendAndAwait h topic m) :=
  hP.await (hn.of_still (still_send n topic m)) _

/-- What holds whatever the shared state is holds also after somebody outside handled something. -/
theorem handle {Q : List κ → Prop} (hQ : Keeps h labels fun _ => Q) (sends : Nat)
    {n : Network ℓ π σ κ} (hn : Holds labels (fun _ => Q) n) (next : Next π κ × σ) :
    Holds labels (fun _ => Q) (Network.handle h sends n next).1 := by
  induction sends generalizing n next with
  | zero =>
    obtain ⟨next, shared⟩ := next
    cases next <;> exact hn.with_shared shared
  | succ sends ih =>
    obtain ⟨next, shared⟩ := next
    cases next with
    | send topic message rest => exact ih (hQ.sendAndAwait (hn.with_shared shared) topic message) _
    | done failure => exact hn.with_shared shared
    | wait rest => exact hn.with_shared shared

end Keeps

end Network

end MarketEngine
