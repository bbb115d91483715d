/-!
# The latest of several

Where several items answer to one name, the latest of them counts.
-/

namespace MarketEngine

/-- The place of the last item that `p` holds for. -/
def latest? {β : Type} (p : β → Bool) : List β → Option Nat
  | [] => none
  | x :: rest =>
    match latest? p rest with
    | some i => some (i + 1)
    | none => if p x then some 0 else none

/-- There is no latest item if `p` holds for none. -/
theorem latest?_eq_none {β : Type} {p : β → Bool} {l : List β} :
    latest? p l = none ↔ ∀ x ∈ l, p x = false := by
  induction l with
  | nil => simp [latest?]
  | cons x rest ih =>
    rw [latest?, List.forall_mem_cons, ← ih]
    cases latest? p rest with
    | none => simp
    | some i => simp

/-- The place of the latest item stays when all items are mapped. -/
theorem latest?_map {β γ : Type} {p : γ → Bool} (g : β → γ) (l : List β) :
    latest? p (l.map g) = latest? (fun x => p (g x)) l := by
  induction l with
  | nil => rfl
  | cons x rest ih => rw [List.map_cons, latest?, latest?, ih]

/-- The item at the place that was found has the property. -/
theorem exists_of_latest? {β : Type} {p : β → Bool} {l : List β} {i : Nat}
    (h : latest? p l = some i) : ∃ x, l[i]? = some x ∧ p x = true := by
  induction l generalizing i with
  | nil => simp [latest?] at h
  | cons x rest ih =>
    rw [latest?] at h
    cases hrest : latest? p rest with
    | none =>
      simp only [hrest, Option.ite_none_right_eq_some, Option.some.injEq] at h
      obtain ⟨hx, rfl⟩ := h
      exact ⟨x, rfl, hx⟩
    | some j =>
      simp only [hrest, Option.some.injEq] at h
      subst h
      exact ih hrest

end MarketEngine
