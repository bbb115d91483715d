import MarketEngine.Proofs.Channel.Scheduling
/-!
# What is done with a network from outside

Somebody outside changes the shared state, lets consumers subscribe, posts messages and handles some
on the spot, and in between the network moves (`Network.Leads`). Whatever is done, the channels go
through steps of channels that nobody stops (`Network.Leads.reaches`).
-/

namespace MarketEngine

variable {ℓ π σ κ : Type}

/-- What somebody outside may do. -/
structure Dealings (ℓ σ : Type) where
  /-- How the shared state may change. -/
  changes : σ → σ → Prop
  /-- Who may subscribe. -/
  subscribes : ℓ → Prop
  /-- As whom messages may be handled. -/
  handles : ℓ → Prop

namespace Network

/-- How a message ends for somebody outside, whatever happens meanwhile: after at most so many
sends, and without waiting for anybody. -/
def EndsIn (h : Handlers ℓ π σ κ) : (sends : Nat) → Next π κ → Prop
  | _, .done _ => True
  | _, .wait _ => False
  | 0, .send .. => False
  | sends + 1, .send _ _ rest => ∀ s, EndsIn h sends (h.resume rest s).1

/-- The one network becomes the other while these messages are posted from outside, and these are
handled on the spot. -/
inductive Leads (h : Handlers ℓ π σ κ) (D : Dealings ℓ σ) :
    List (Topic × Message π) → List (ℓ × Message π) → Network ℓ π σ κ → Network ℓ π σ κ → Prop
  | refl (n : Network ℓ π σ κ) : Leads h D [] [] n n
  | trans {posts posts' : List (Topic × Message π)} {calls calls' : List (ℓ × Message π)}
    {n n' n'' : Network ℓ π σ κ} (hfirst : Leads h D posts calls n n')
    (hnext : Leads h D posts' calls' n' n'') : Leads h D (posts ++ posts') (calls ++ calls') n n''
  /-- The network moves in a way that keeps what every move keeps. -/
  | moves {n n' : Network ℓ π σ κ}
    (hmoves : ∀ {I : Network ℓ π σ κ → Prop}, Stable h I → I n → I n') : Leads h D [] [] n n'
  | subscribe (n : Network ℓ π σ κ) (topic : Topic) {label : ℓ} (hlabel : D.subscribes label)
    (s : Subscription) : Leads h D [] [] n (n.subscribe topic label s)
  | change (n : Network ℓ π σ κ) {f : σ → σ} (hf : ∀ s, D.changes s (f s)) :
    Leads h D [] [] n { n with shared := f n.shared }
  | send (n : Network ℓ π σ κ) (topic : Topic) (m : Message π) :
    Leads h D [(topic, m)] [] n (n.send topic m).1
  /-- Somebody goes through with a message that ends. -/
  | handle (sends : Nat) (n : Network ℓ π σ κ) {label : ℓ} (hlabel : D.handles label)
    (m : Message π) (hends : EndsIn h sends (h.start label m n.shared).1) :
    Leads h D [] [(label, m)] n (n.handle h sends (h.start label m n.shared)).1

namespace Leads

variable {h : Handlers ℓ π σ κ} {D : Dealings ℓ σ} {posts : List (Topic × Message π)}
  {calls : List (ℓ × Message π)} {n n' n'' : Network ℓ π σ κ}

/-- Nothing more is posted. -/
theorem last (hfirst : Leads h D posts calls n n') (hnext : Leads h D [] [] n' n'') :
    Leads h D posts calls n n'' := by
  have htrans := hfirst.trans hnext
  rwa [List.append_nil, List.append_nil] at htrans

/-- Who is to go on and who is awaited changes nothing that moves keep. -/
theorem line (n : Network ℓ π σ κ) (ready : List Actor) (awaited : List Ticket) :
    Leads h D [] [] n { n with ready, awaited } := .moves fun hI hn => hI.line hn ready awaited

/-- A message is posted, and the network moves until it is sent. -/
theorem sendAndAwait (n : Network ℓ π σ κ) (topic : Topic) (m : Message π) :
    Leads h D [(topic, m)] [] n (n.sendAndAwait h topic m) :=
  (Leads.send n topic m).last (.moves fun hI hn => hI.await hn _)

end Leads

/-! ## The channels meanwhile -/

section Reaches

variable {h : Handlers ℓ π σ κ} {E : ChannelEvent ℓ π → Prop}
  (hE : ∀ {e : ChannelEvent ℓ π}, e.IsOrdinary (fun _ => False) → E e)
include hE

/-- A message that is posted and awaited is steps of channels. -/
theorem reaches_sendAndAwait (h : Handlers ℓ π σ κ) (n : Network ℓ π σ κ) (topic : Topic)
    (m : Message π) : n.Reaches E (n.sendAndAwait h topic m) :=
  (stable_reaches hE h n).await (reaches_send hE n topic m) _

/-- A message that is handled on the spot is steps of channels. -/
theorem reaches_handle (h : Handlers ℓ π σ κ) (sends : Nat) (n : Network ℓ π σ κ)
    (next : Next π κ × σ) : n.Reaches E (n.handle h sends next).1 := by
  induction sends generalizing n next with
  | zero =>
    obtain ⟨next, shared⟩ := next
    cases next <;> exact .of_eq rfl
  | succ sends ih =>
    obtain ⟨next, shared⟩ := next
    cases next with
    | send topic message rest =>
      have hshared : n.Reaches E { n with shared } := .of_eq rfl
      exact (hshared.trans (reaches_sendAndAwait hE h _ topic message)).trans (ih _ _)
    | done failure => exact .of_eq rfl
    | wait rest => exact .of_eq rfl

end Reaches

/-- Whatever is done, nobody stops a channel. -/
theorem Leads.reaches {h : Handlers ℓ π σ κ} {D : Dealings ℓ σ}
    {posts : List (Topic × Message π)} {calls : List (ℓ × Message π)} {n n' : Network ℓ π σ κ}
    (hleads : Leads h D posts calls n n') :
    n.Reaches (fun e => e.IsOrdinary D.subscribes) n' := by
  have hE : ∀ {e : ChannelEvent ℓ π}, e.IsOrdinary (fun _ => False) →
      e.IsOrdinary D.subscribes := by
    intro e he
    cases e with
    | subscribe label s => exact he.elim
    | _ => exact he
  induction hleads with
  | refl n => exact .refl n
  | trans _ _ ih ih' => exact ih.trans ih'
  | moves hmoves => exact hmoves (stable_reaches hE h _) (.refl _)
  | subscribe n topic hlabel s => exact reaches_subscribe hE n topic hlabel
  | change n hf => exact .of_eq rfl
  | send n topic m => exact reaches_send hE n topic m
  | handle sends n hlabel m hends => exact reaches_handle hE h sends n _

end Network

end MarketEngine
