/-!
# Lists with gaps

`closeGaps` drops the gaps of a list without moving up all that stands behind them: each gap, from
the front on, is filled with the last entry. The entries stay the same ones; their order may change.
-/

namespace MarketEngine

variable {α : Type}

/-- The entries of a list, where each gap is filled with the last entry. -/
def closeGaps : List (Option α) → List α
  | [] => []
  | some a :: rest => a :: closeGaps rest
  | none :: rest =>
    match _h : rest.getLast? with
    | none => []
    | some last => closeGaps (last :: rest.dropLast)
termination_by l => l.length
decreasing_by
  · simp
  · cases rest with
    | nil => simp_all
    | cons a l => simp

/-- Closing the gaps keeps every entry, each as often as before. -/
theorem closeGaps_perm (l : List (Option α)) : (closeGaps l).Perm (l.filterMap id) := by
  fun_induction closeGaps l with
  | case1 => exact .nil
  | case2 a rest ih => simpa using ih.cons a
  | case3 rest h =>
    have : rest = [] := by simpa using h
    simp [this]
  | case4 rest last h ih =>
    obtain ⟨l, rfl⟩ : ∃ l, rest = l ++ [last] := List.getLast?_eq_some_iff.1 h
    refine ih.trans ?_
    simp only [List.dropLast_concat, List.filterMap_cons_none (show id none = none from rfl),
      List.filterMap_append]
    cases last with
    | none => simp
    | some a => simpa using (List.perm_append_singleton a (l.filterMap id)).symm

/-- Closing the gaps neither loses an entry nor adds one. -/
theorem mem_closeGaps {a : α} {l : List (Option α)} : a ∈ closeGaps l ↔ some a ∈ l := by
  simp [(closeGaps_perm l).mem_iff]

end MarketEngine
